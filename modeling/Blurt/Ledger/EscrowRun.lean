import Blurt.Ledger.Consent
import Blurt.Ledger.Entries
import Blurt.Ledger.Maintenance
import Mathlib.Algebra.BigOperators.Group.Finset.Piecewise

/-! # The life of an escrow

An escrow is opened by a transfer, is then approved, rejected, disputed and released by its
parties, and expires at the end of a block if it is not approved in time. Its history lists
what happened to it, with what every account was paid at that moment.
-/

namespace Blurt

namespace Ledger

namespace Escrow

inductive Action
  | approve (who : AccountName)
  | reject (who : AccountName)
  | dispute (who : AccountName)
  | release (who receiver : AccountName)
  | expire
  deriving DecidableEq, Repr

/-- One step of an escrow: what was done, at which head block time, and by how much it
raised the balance of each account. -/
structure Event where
  action : Action
  time : Nat
  paid : AccountName → Int

abbrev History := List Event

namespace History

/-- What an account was paid out of the escrow. -/
def paid (events : History) (name : AccountName) : Int :=
  (events.map fun event => event.paid name).sum

/-- A party approved the escrow by its ratification deadline. -/
def ApprovedBy (events : History) (who : AccountName) (deadline : Nat) : Prop :=
  ∃ event ∈ events, event.action = .approve who ∧ event.time ≤ deadline

/-- Both parties to an escrow approved it by its deadline. -/
def Ratified (events : History) (o : EscrowTransferOperation) : Prop :=
  events.ApprovedBy o.toAccount o.ratificationDeadline ∧
    events.ApprovedBy o.agent o.ratificationDeadline

def Disputed (events : History) : Prop :=
  ∃ event ∈ events, ∃ who, event.action = .dispute who

variable {events : History} {event : Event} {name who : AccountName} {deadline : Nat}

@[simp] theorem paid_nil : paid [] name = 0 := rfl

@[simp] theorem paid_concat : paid (events ++ [event]) name = paid events name + event.paid name := by
  simp [paid]

@[simp] theorem not_approvedBy_nil : ¬ ApprovedBy [] who deadline := by
  simp [ApprovedBy]

@[simp] theorem approvedBy_concat : ApprovedBy (events ++ [event]) who deadline ↔
    ApprovedBy events who deadline ∨ event.action = .approve who ∧ event.time ≤ deadline := by
  simp [ApprovedBy, or_and_right, exists_or]

@[simp] theorem not_disputed_nil : ¬ Disputed [] := by
  simp [Disputed]

@[simp] theorem disputed_concat :
    Disputed (events ++ [event]) ↔ Disputed events ∨ ∃ who, event.action = .dispute who := by
  simp [Disputed, or_and_right, exists_or]

end History

/-- The rules for one event, given what happened before it: nothing but a refund to the
opener before both parties approved, no refund of the whole once they did, and releases by
the agent alone once there is a dispute. -/
structure Event.Lawful (o : EscrowTransferOperation) (before : History) (event : Event) : Prop where
  refunds : ¬ History.Ratified (before ++ [event]) o → ∀ name, name ≠ o.fromAccount →
    event.paid name = 0
  pays : ∀ name, 0 ≤ event.paid name
  final : before.Ratified o → event.action ≠ .expire ∧ ∀ who, event.action ≠ .reject who
  disputed : before.Disputed → ∃ receiver, event.action = .release o.agent receiver

/-- Every event obeys the rules. -/
def History.Lawful (o : EscrowTransferOperation) (events : History) : Prop :=
  ∀ before event after, events = before ++ event :: after → event.Lawful o before

namespace History

variable {o : EscrowTransferOperation} {events : History} {event : Event}

theorem lawful_nil : Lawful o [] := by
  intro before event after h
  simp at h

theorem Lawful.concat (h : Lawful o events) (hlast : event.Lawful o events) :
    Lawful o (events ++ [event]) := by
  intro before e after hsplit
  -- the last event of the list is the new one, or it is in `after`
  rcases List.eq_nil_or_concat after with rfl | ⟨rest, last, rfl⟩
  · obtain ⟨rfl, he⟩ := List.append_inj' hsplit rfl
    cases he
    exact hlast
  · rw [List.concat_eq_append, ← List.cons_append, ← List.append_assoc] at hsplit
    obtain ⟨hevents, -⟩ := List.append_inj' hsplit rfl
    exact h before e rest hevents

end History

end Escrow

namespace Database

/-- The balance of an account, 0 if there is none. -/
def balanceOf (db : Database) (name : AccountName) : Int :=
  ((db.accounts.find? name).map Account.balance).getD 0

/-- By how much the balance of each account grew from `db` to `db'`. -/
def growth (db db' : Database) (name : AccountName) : Int :=
  db'.balanceOf name - db.balanceOf name

end Database

/-- What happens to the escrow under `key`. A change elsewhere leaves it as it is. -/
inductive Escrow.Step (key : AccountName × Nat) : Database → Option Escrow.Event → Database → Prop
  | approve {db db' : Database} {o : EscrowApproveOperation} (hvalid : o.validate = .ok ())
      (hkey : (o.fromAccount, o.escrowId) = key) (happly : db.escrowApprove o = .ok db') :
      Step key db
        (some
          { action := if o.approve then .approve o.who else .reject o.who
            time := db.dgp.time
            paid := db.growth db' }) db'
  | dispute {db db' : Database} {o : EscrowDisputeOperation} (hvalid : o.validate = .ok ())
      (hkey : (o.fromAccount, o.escrowId) = key) (happly : db.escrowDispute o = .ok db') :
      Step key db
        (some
          { action := .dispute o.who
            time := db.dgp.time
            paid := db.growth db' }) db'
  | release {db db' : Database} {o : EscrowReleaseOperation} (hvalid : o.validate = .ok ())
      (hkey : (o.fromAccount, o.escrowId) = key) (happly : db.escrowRelease o = .ok db') :
      Step key db
        (some
          { action := .release o.who o.receiver
            time := db.dgp.time
            paid := db.growth db' }) db'
  | expire {db db' : Database} {row : (AccountName × Nat) × Escrow}
      (hnext : db.nextEscrow = some row) (hkey : row.1 = key)
      (happly : db.expireEscrow row = .ok db') :
      Step key db
        (some
          { action := .expire
            time := db.dgp.time
            paid := db.growth db' }) db'
  | elsewhere {db db' : Database} (hrow : db'.escrows.find? key = db.escrows.find? key) :
      Step key db none db'

/-- A run over the escrow under `key`, with its history. -/
inductive Escrow.Run (key : AccountName × Nat) : Database → Escrow.History → Database → Prop
  | refl (db : Database) : Run key db [] db
  | tail {db db' db'' : Database} {events : Escrow.History} {event : Option Escrow.Event} :
      Run key db events db' → Escrow.Step key db' event db'' →
        Run key db (events ++ event.toList) db''

/-- `amount` for one account, and nothing for the others. -/
def payment (name : AccountName) (amount : Int) : AccountName → Int :=
  fun other => if other = name then amount else 0

namespace Database

variable {db db' db'' : Database} {name : AccountName}

theorem growth_self (db : Database) (name : AccountName) : db.growth db name = 0 := by
  simp [growth]

theorem growth_trans (db db' db'' : Database) (name : AccountName) :
    db.growth db'' name = db.growth db' name + db'.growth db'' name := by
  unfold growth
  omega

theorem balanceOf_congr (h : db'.accounts = db.accounts) : db'.balanceOf name = db.balanceOf name := by
  rw [balanceOf, balanceOf, h]

theorem growth_congr (h : db''.accounts = db'.accounts) : db.growth db'' = db.growth db' := by
  funext name
  rw [growth, growth, balanceOf_congr h]

theorem balanceOf_books (db : Database) (name : AccountName) :
    db.balanceOf name =
      ((db.books.holders.find? name).map fun h => h.funds .balance).getD 0 := by
  rw [balanceOf, find?_holders, Option.map_map]
  rfl

theorem adjustBalance_growth {delta : Asset} (h : db.adjustBalance name delta = .ok db')
    (hblurt : delta.symbol = .blurt) : db.growth db' = payment name delta.amount := by
  obtain ⟨a, ha⟩ := adjustBalance_found h
  obtain ⟨hbooks, -⟩ := adjustBalance_blurt h hblurt
  funext other
  rw [growth, payment, balanceOf_books, balanceOf_books, hbooks, Books.credit, Books.find?_adjust]
  by_cases hother : other = name
  · subst hother
    rw [if_pos rfl, if_pos rfl, find?_holders, ha]
    simp [Holder.credit]
  · rw [if_neg hother, if_neg hother]
    omega

/-! ## Changes elsewhere -/

/-- The escrow that an operation is about. -/
def escrowKey : Operation → Option (AccountName × Nat)
  | .escrowTransfer o => some (o.fromAccount, o.escrowId)
  | .escrowApprove o => some (o.fromAccount, o.escrowId)
  | .escrowDispute o => some (o.fromAccount, o.escrowId)
  | .escrowRelease o => some (o.fromAccount, o.escrowId)
  | _ => none

@[simp] theorem escrows_shiftVotes (b : Books) (account : AccountName) (delta : VoteDelta)
    (levels : Nat) : (b.shiftVotes account delta levels).escrows = b.escrows := by
  rw [Books.shiftVotes_frame]

/-- An operation leaves the escrows alone that it is not about. -/
theorem applyOperation_escrows {rules : TextRules} {host : Host} {op : Operation}
    {key : AccountName × Nat} (hvalid : op.validate rules = .ok ())
    (happly : applyOperation host db op = .ok db') (hkey : escrowKey op ≠ some key) :
    db'.escrows.find? key = db.escrows.find? key := by
  have hquiet : db'.books = db.books → db'.escrows.find? key = db.escrows.find? key := fun h => by
    rw [← find?_escrows, h, find?_escrows]
  have hkept : db'.books.escrows = db.books.escrows →
      db'.escrows.find? key = db.escrows.find? key := fun h => by
    rw [← find?_escrows, h, find?_escrows]
  cases op with
  | vote o => exact hquiet (vote_books happly)
  | comment o => exact hquiet (comment_books happly)
  | transfer o => exact hkept (by rw [transfer_books happly]; rfl)
  | transferToVesting o =>
      obtain ⟨newVesting, -, -, hbooks⟩ := transferToVesting_books happly
      exact hkept (by rw [hbooks, escrows_shiftVotes]; rfl)
  | withdrawVesting o =>
      obtain ⟨account, -, -, -, hbooks⟩ := withdrawVesting_books happly
      exact hkept (by rw [hbooks]; rfl)
  | accountCreate o =>
      simp only [Operation.validate, AccountCreateOperation.validate, validateCreationFee,
        Outcome.bind_eq_ok, Outcome.ensure_eq_ok] at hvalid
      obtain ⟨_, -, _, hblurt, -⟩ := hvalid
      obtain ⟨-, hbooks⟩ := accountCreate_books hblurt happly
      exact hkept (by rw [hbooks]; rfl)
  | accountUpdate o =>
      obtain ⟨owned, auth, howned, hbooks⟩ := accountUpdate_books happly
      rcases howned with rfl | ⟨previous, updated, rfl⟩ <;> exact hkept (by rw [hbooks]; rfl)
  | witnessUpdate o => exact hkept (by rw [witnessUpdate_books happly]; rfl)
  | accountWitnessVote o =>
      obtain ⟨voter, -, -, -, ⟨-, -, -, hbooks⟩ | ⟨-, -, hbooks⟩⟩ := accountWitnessVote_books happly
      all_goals exact hkept (by rw [hbooks]; rfl)
  | accountWitnessProxy o =>
      obtain ⟨account, -, -, -, ⟨-, -, hbooks⟩ | ⟨-, hbooks⟩⟩ := accountWitnessProxy_books happly
      · exact hkept (by simp [hbooks, Books.setProxy, Books.adjust, Books.clearVotes])
      · exact hkept (by simp [hbooks, Books.setProxy, Books.adjust])
  | custom o =>
      simp only [applyOperation, custom, Outcome.bind_eq_ok, Outcome.ensure_eq_ok,
        Outcome.pure_eq_ok] at happly
      obtain ⟨_, -, _, -, rfl⟩ := happly
      rfl
  | deleteComment o => exact hquiet (deleteComment_books happly)
  | customJson o =>
      simp only [applyOperation, customJson, Outcome.bind_eq_ok, Outcome.ensure_eq_ok,
        Outcome.pure_eq_ok] at happly
      obtain ⟨_, -, _, -, rfl⟩ := happly
      rfl
  | commentOptions o => exact hquiet (commentOptions_books happly)
  | setWithdrawVestingRoute o => exact hquiet (setWithdrawVestingRoute_books happly)
  | claimAccount o => exact hkept (by rw [(claimAccount_books happly).2]; rfl)
  | createClaimedAccount o =>
      obtain ⟨-, hbooks⟩ := createClaimedAccount_books happly
      exact hkept (by rw [hbooks]; rfl)
  | requestAccountRecovery o => exact hquiet (requestAccountRecovery_books happly)
  | recoverAccount o =>
      obtain ⟨-, auth, -, hbooks⟩ := recoverAccount_books happly
      exact hkept (by rw [hbooks]; rfl)
  | changeRecoveryAccount o => exact hquiet (changeRecoveryAccount_books happly)
  | escrowTransfer o =>
      simp only [Operation.validate, EscrowTransferOperation.validate, Outcome.bind_eq_ok,
        Outcome.ensure_eq_ok] at hvalid
      obtain ⟨_, -, _, -, _, -, _, -, _, -, _, -, _, hfee, -⟩ := hvalid
      obtain ⟨-, -, hbooks⟩ := escrowTransfer_books hfee happly
      rw [← find?_escrows, hbooks, Books.setEscrow, Table.find?_set, if_neg, ← find?_escrows]
      · rfl
      · exact fun h => hkey (congrArg some h.symm)
  | escrowDispute o =>
      obtain ⟨e, -, hbooks⟩ := escrowDispute_books happly
      rw [← find?_escrows, hbooks, Books.setEscrow, Table.find?_set, if_neg, ← find?_escrows]
      exact fun h => hkey (congrArg some h.symm)
  | escrowRelease o =>
      have hne : key ≠ (o.fromAccount, o.escrowId) := fun h => hkey (congrArg some h.symm)
      obtain ⟨e, -, -, -, -, -, hbooks⟩ := escrowRelease_books happly
      rw [← find?_escrows, ← find?_escrows, hbooks]
      split
      · rw [Books.closeEscrow, Table.find?_remove, if_neg hne]
        rfl
      · rw [Books.setEscrow, Table.find?_set, if_neg hne]
        rfl
  | escrowApprove o =>
      have hne : key ≠ (o.fromAccount, o.escrowId) := fun h => hkey (congrArg some h.symm)
      obtain ⟨e, approved, -, -, ⟨-, -, -, hbooks⟩ | ⟨-, -, -, -, hbooks⟩ | ⟨-, -, hbooks⟩⟩ :=
        escrowApprove_books happly
      · rw [← find?_escrows, ← find?_escrows, hbooks, Books.closeEscrow, Table.find?_remove,
          if_neg hne]
        rfl
      · rw [← find?_escrows, ← find?_escrows, hbooks, Books.setEscrow, Table.find?_set, if_neg hne]
        rfl
      · rw [← find?_escrows, ← find?_escrows, hbooks, Books.setEscrow, Table.find?_set, if_neg hne]
  | transferToSavings o =>
      simp only [Operation.validate, TransferToSavingsOperation.validate, Outcome.bind_eq_ok,
        Outcome.ensure_eq_ok] at hvalid
      obtain ⟨_, -, _, -, _, -, _, hblurt, -⟩ := hvalid
      exact hkept (by rw [transferToSavings_books hblurt happly]; rfl)
  | transferFromSavings o =>
      obtain ⟨-, -, hbooks⟩ := transferFromSavings_books happly
      exact hkept (by rw [hbooks]; rfl)
  | cancelTransferFromSavings o =>
      obtain ⟨swo, -, -, hbooks⟩ := cancelTransferFromSavings_books happly
      exact hkept (by rw [hbooks]; rfl)
  | customBinary o =>
      simp only [applyOperation, customBinary, Outcome.bind_eq_ok, Outcome.ensure_eq_ok,
        Outcome.pure_eq_ok] at happly
      obtain ⟨_, -, _, -, rfl⟩ := happly
      rfl
  | declineVotingRights o => exact hquiet (declineVotingRights_books happly)
  | resetAccount o => cases happly
  | setResetAccount o => cases happly
  | claimRewardBalance o =>
      obtain ⟨moved, -, hbooks⟩ := claimRewardBalance_books happly
      exact hkept (by rw [hbooks, escrows_shiftVotes]; rfl)
  | delegateVestingShares o =>
      obtain ⟨delegator, updated, -, -, hcases⟩ := delegateVestingShares_books happly
      rcases hcases with ⟨-, -, hbooks⟩ | ⟨old, -, ⟨-, -, hbooks⟩ | ⟨-, hbooks⟩⟩
      · exact hkept (by rw [hbooks]; rfl)
      · exact hkept (by rw [hbooks]; rfl)
      · exact hkept (by rw [hbooks]; split <;> rfl)
  | witnessSetProperties o =>
      obtain ⟨-, hbooks | hbooks⟩ := witnessSetProperties_books happly
      · exact hquiet hbooks
      · exact hkept (by rw [hbooks]; rfl)
  | createProposal o => exact hkept (by rw [createProposal_books happly]; rfl)
  | updateProposalVotes o =>
      cases happly
      exact hquiet (updateProposalVotes_books db o)
  | removeProposal o => exact hquiet (removeProposal_books happly)

/-! ## What each evaluator does to an escrow -/

/-- The rejection of an escrow, and its expiry, refund all of it to the account that
opened it. -/
theorem refund_growth {refunded returned : Database} {e : Escrow}
    (hrefunded : db.adjustBalance name e.blurtBalance = .ok refunded)
    (hreturned : refunded.adjustBalance name e.pendingFee = .ok returned)
    (hbalance : e.blurtBalance.symbol = .blurt) (hfee : e.pendingFee.symbol = .blurt) :
    db.growth returned = payment name e.content := by
  have hfirst := adjustBalance_growth hrefunded hbalance
  have hsecond := adjustBalance_growth hreturned hfee
  funext other
  rw [growth_trans db refunded, hfirst, hsecond, payment, payment, payment, Escrow.content]
  split <;> omega

theorem escrowTransfer_opens {rules : TextRules} {o : EscrowTransferOperation}
    (hvalid : o.validate rules = .ok ()) (h : db.escrowTransfer o = .ok db') :
    ∃ id, db'.escrows.find? (o.fromAccount, o.escrowId) = some
      { id := id
        toAccount := o.toAccount
        agent := o.agent
        ratificationDeadline := o.ratificationDeadline
        escrowExpiration := o.escrowExpiration
        blurtBalance := o.blurtAmount
        pendingFee := o.fee } := by
  simp only [EscrowTransferOperation.validate, Outcome.bind_eq_ok, Outcome.ensure_eq_ok] at hvalid
  obtain ⟨_, -, _, -, _, -, _, -, _, -, _, -, _, hfee, -⟩ := hvalid
  obtain ⟨-, -, hbooks⟩ := escrowTransfer_books hfee h
  refine ⟨db.nextIds.escrow, ?_⟩
  rw [← find?_escrows, hbooks, Books.setEscrow, Table.find?_set, if_pos rfl]

/-- An approval that is accepted comes from a party that has not approved yet, by the
ratification deadline. -/
structure Approves (db : Database) (o : EscrowApproveOperation) (e : Escrow) : Prop where
  found : db.escrows.find? (o.fromAccount, o.escrowId) = some e
  toAccount : e.toAccount = o.toAccount
  agent : e.agent = o.agent
  inTime : db.dgp.time ≤ e.ratificationDeadline
  toOpen : o.who = e.toAccount → e.toApproved = false
  agentOpen : o.who = e.agent → e.agentApproved = false

theorem escrowApprove_spec {o : EscrowApproveOperation} (h : db.escrowApprove o = .ok db') :
    ∃ e approved, db.Approves o e ∧
      approved = { e with
        toApproved := e.toApproved || (o.approve && o.who = e.toAccount)
        agentApproved := e.agentApproved || (o.approve && o.who = e.agent) } ∧
      (e.blurtBalance.symbol = .blurt → e.pendingFee.symbol = .blurt →
        (o.approve = false ∧ db.growth db' = payment o.fromAccount e.content ∧
            db'.escrows.find? (o.fromAccount, o.escrowId) = none ∨
          o.approve ∧ approved.isApproved ∧ db.growth db' = payment e.agent e.pendingFee.amount ∧
            db'.escrows.find? (o.fromAccount, o.escrowId) =
              some { approved with pendingFee := { approved.pendingFee with amount := 0 } } ∨
          o.approve ∧ approved.isApproved = false ∧ db.growth db' = 0 ∧
            db'.escrows.find? (o.fromAccount, o.escrowId) = some approved)) := by
  simp only [escrowApprove, getEscrow, Outcome.bind_eq_ok, Outcome.ensure_eq_ok,
    Outcome.require_eq_ok] at h
  obtain ⟨e, hfound, _, hto, _, hagent, _, hinTime, approved, happroved, h⟩ := h
  have heq := approveEscrow_eq_ok happroved
  simp only [approveEscrow, Outcome.bind_eq_ok, Outcome.ensure_eq_ok] at happroved
  obtain ⟨_, htoOpen, _, hagentOpen, -⟩ := happroved
  rw [← hto, ← hagent] at heq
  refine ⟨e, approved, ⟨hfound, hto, hagent, hinTime, ?_, ?_⟩, heq, fun hbalance hfee => ?_⟩
  · intro hwho
    simpa using htoOpen (hwho.trans hto)
  · intro hwho
    simpa using hagentOpen (hwho.trans hagent)
  have hpending : approved.pendingFee = e.pendingFee := by rw [heq]
  split at h
  · rename_i hrejects
    simp only [Outcome.bind_eq_ok, Outcome.pure_eq_ok] at h
    obtain ⟨refunded, hrefunded, returned, hreturned, rfl⟩ := h
    refine .inl ⟨by simpa using hrejects, ?_, by simp [Store.find?_remove]⟩
    rw [← refund_growth hrefunded hreturned hbalance hfee]
    exact growth_congr rfl
  · rename_i happroves
    have happroves : o.approve = true := by simpa using happroves
    split at h
    · rename_i hall
      simp only [Outcome.bind_eq_ok, Outcome.pure_eq_ok] at h
      obtain ⟨paid, hpaid, rfl⟩ := h
      refine .inr (.inl ⟨happroves, hall, ?_, Store.find?_set_self _ _ _⟩)
      have hgrowth := adjustBalance_growth hpaid (by rw [hpending]; exact hfee)
      rw [hagent, ← hpending, ← hgrowth]
      exact growth_congr rfl
    · rename_i hopen
      cases h
      refine .inr (.inr ⟨happroves, by simpa using hopen, ?_, Store.find?_set_self _ _ _⟩)
      funext name
      exact (congrFun (growth_congr rfl) name).trans (growth_self db name)

theorem escrowDispute_spec {o : EscrowDisputeOperation} (h : db.escrowDispute o = .ok db') :
    ∃ e, db.escrows.find? (o.fromAccount, o.escrowId) = some e ∧ e.isApproved ∧
      e.disputed = false ∧ db.growth db' = 0 ∧
      db'.escrows.find? (o.fromAccount, o.escrowId) = some { e with disputed := true } := by
  simp only [escrowDispute, getEscrow, Outcome.bind_eq_ok, Outcome.ensure_eq_ok,
    Outcome.require_eq_ok, Outcome.pure_eq_ok] at h
  obtain ⟨_, -, e, hfound, _, -, _, happroved, _, hopen, _, -, _, -, rfl⟩ := h
  refine ⟨e, hfound, happroved, by simpa using hopen, ?_, Store.find?_set_self _ _ _⟩
  funext name
  exact (congrFun (growth_congr rfl) name).trans (growth_self db name)

theorem escrowRelease_spec {o : EscrowReleaseOperation} (hvalid : o.validate = .ok ())
    (h : db.escrowRelease o = .ok db') :
    ∃ e, db.escrows.find? (o.fromAccount, o.escrowId) = some e ∧ e.isApproved ∧
      (o.receiver = o.fromAccount ∨ o.receiver = e.toAccount) ∧
      (e.disputed → o.who = e.agent) ∧ 0 < o.blurtAmount.amount ∧
      o.blurtAmount.amount ≤ e.blurtBalance.amount ∧
      db.growth db' = payment o.receiver o.blurtAmount.amount ∧
      (o.blurtAmount.amount = e.blurtBalance.amount ∧
          db'.escrows.find? (o.fromAccount, o.escrowId) = none ∨
        o.blurtAmount.amount < e.blurtBalance.amount ∧
          db'.escrows.find? (o.fromAccount, o.escrowId) = some { e with
            blurtBalance := { e.blurtBalance with
              amount := e.blurtBalance.amount - o.blurtAmount.amount } }) := by
  simp only [EscrowReleaseOperation.validate, Outcome.bind_eq_ok, Outcome.ensure_eq_ok] at hvalid
  obtain ⟨_, -, _, -, _, -, _, -, _, -, _, -, _, -, _, hpositive, hblurt⟩ := hvalid
  simp only [escrowRelease, getEscrow, Outcome.bind_eq_ok, Outcome.ensure_eq_ok,
    Outcome.require_eq_ok, shareType_eq_ok] at h
  obtain ⟨_, -, e, hfound, _, -, _, hamount, _, -, _, -, _, hreceiver, _, happroved, _, hrelease, paid,
    hpaid, _, ⟨-, rfl⟩, h⟩ := h
  have hgrowth := adjustBalance_growth hpaid hblurt
  refine ⟨e, hfound, happroved, hreceiver, ?_, hpositive, hamount, ?_, ?_⟩
  · intro hdisputed
    simpa [checkRelease, hdisputed] using hrelease
  · rw [← hgrowth]
    split at h <;>
      · cases h
        exact growth_congr rfl
  · split at h
    · cases h
      exact .inl ⟨by omega, by simp [Store.find?_remove]⟩
    · cases h
      exact .inr ⟨by omega, Store.find?_set_self _ _ _⟩

theorem expireEscrow_spec {row : (AccountName × Nat) × Escrow} (hnext : db.nextEscrow = some row)
    (h : db.expireEscrow row = .ok db') :
    db.escrows.find? row.1 = some row.2 ∧ row.2.isApproved = false ∧
      row.2.ratificationDeadline ≤ db.dgp.time ∧ db'.escrows.find? row.1 = none ∧
      (row.2.blurtBalance.symbol = .blurt → row.2.pendingFee.symbol = .blurt →
        db.growth db' = payment row.1.1 row.2.content) := by
  obtain ⟨hfound, hdue⟩ := Store.find?_of_head?_due hnext
  simp only [Bool.and_eq_true, Bool.not_eq_true', decide_eq_true_eq] at hdue
  simp only [expireEscrow, Outcome.bind_eq_ok, Outcome.pure_eq_ok] at h
  obtain ⟨refunded, hrefunded, returned, hreturned, rfl⟩ := h
  refine ⟨hfound, hdue.1, hdue.2, by simp [Store.find?_remove], fun hbalance hfee => ?_⟩
  rw [← refund_growth hrefunded hreturned hbalance hfee]
  exact growth_congr rfl

end Database

end Ledger

end Blurt
