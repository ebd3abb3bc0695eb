import Blurt.Ledger.EscrowRun

/-! # An escrow pays out once

The row of an escrow agrees with its history, and what the escrow has paid and what it still
holds add up to its deposit. Each step of an escrow preserves this.
-/

namespace Blurt

namespace Ledger

namespace Escrow

/-- The accounts that an escrow is between. -/
def parties (o : EscrowTransferOperation) : Finset AccountName :=
  {o.fromAccount, o.toAccount, o.agent}

/-- The row of an escrow agrees with its history. -/
structure Reflects (o : EscrowTransferOperation) (events : History) (e : Escrow) : Prop where
  toAccount : e.toAccount = o.toAccount
  agent : e.agent = o.agent
  deadline : e.ratificationDeadline = o.ratificationDeadline
  toApproved : e.toApproved ↔ events.ApprovedBy o.toAccount o.ratificationDeadline
  agentApproved : e.agentApproved ↔ events.ApprovedBy o.agent o.ratificationDeadline
  disputed : e.disputed ↔ events.Disputed
  ratified : e.disputed → e.isApproved
  balance : e.blurtBalance.symbol = .blurt
  fee : e.pendingFee.symbol = .blurt
  nonneg : 0 ≤ e.blurtBalance.amount
  pendingFee : e.pendingFee.amount = if e.isApproved then 0 else o.fee.amount

/-- What an escrow still holds, if it is there. -/
def remaining (row : Option Escrow) : Int := (row.map content).getD 0

/-- The deposit of an escrow is what it paid and what it still holds. -/
structure Accounted (o : EscrowTransferOperation) (events : History) (row : Option Escrow) :
    Prop where
  total : ∑ name ∈ parties o, events.paid name + remaining row =
    o.blurtAmount.amount + o.fee.amount
  outsiders : ∀ name, name ∉ parties o → events.paid name = 0
  fee : events.Ratified o → events.paid o.agent = o.fee.amount
  noFee : ¬ events.Ratified o → events.paid o.agent = 0
  lawful : events.Lawful o
  reflects : ∀ e, row = some e → e.Reflects o events

variable {rules : TextRules} {o : EscrowTransferOperation} {events : History} {event : Event}
  {e : Escrow} {row row' : Option Escrow} {who : AccountName} {amount : Int}

theorem mem_parties {name : AccountName} :
    name ∈ parties o ↔ name = o.fromAccount ∨ name = o.toAccount ∨ name = o.agent := by
  simp [parties]

theorem Reflects.ratified_iff (h : e.Reflects o events) : e.isApproved ↔ events.Ratified o := by
  rw [isApproved, Bool.and_eq_true, h.toApproved, h.agentApproved]
  rfl

/-- An event that is no approval changes neither who approved nor what is ratified. -/
theorem ratified_concat_of_not_approve (h : ∀ name, event.action ≠ .approve name) :
    History.Ratified (events ++ [event]) o ↔ events.Ratified o := by
  simp [History.Ratified, h]

/-- The sum over the parties of a payment to one of them. -/
theorem sum_payment (hwho : who ∈ parties o) : ∑ name ∈ parties o, payment who amount name = amount := by
  simp [payment, hwho]

theorem Accounted.concat (h : Accounted o events row) (hpaid : event.paid = payment who amount)
    (hwho : who ∈ parties o) (hrow : remaining row' = remaining row - amount)
    (hfee : History.Ratified (events ++ [event]) o →
      History.paid (events ++ [event]) o.agent = o.fee.amount)
    (hnoFee : ¬ History.Ratified (events ++ [event]) o →
      History.paid (events ++ [event]) o.agent = 0)
    (hlawful : event.Lawful o events)
    (hreflects : ∀ e, row' = some e → e.Reflects o (events ++ [event])) :
    Accounted o (events ++ [event]) row' where
  total := by
    have htotal := h.total
    simp only [History.paid_concat, Finset.sum_add_distrib, hpaid, sum_payment hwho]
    omega
  outsiders := by
    intro name hname
    have hne : name ≠ who := by
      rintro rfl
      exact hname hwho
    rw [History.paid_concat, h.outsiders name hname, hpaid, payment, if_neg hne, add_zero]
  fee := hfee
  noFee := hnoFee
  lawful := h.lawful.concat hlawful
  reflects := hreflects

/-- A payment to another party than the agent, with no approval, is no matter of the fee. -/
theorem Accounted.concat_of_not_approve (h : Accounted o events row)
    (hpaid : event.paid = payment who amount) (hwho : who ∈ parties o)
    (hagent : amount ≠ 0 → who ≠ o.agent) (hrow : remaining row' = remaining row - amount)
    (haction : ∀ name, event.action ≠ .approve name) (hlawful : event.Lawful o events)
    (hreflects : ∀ e, row' = some e → e.Reflects o (events ++ [event])) :
    Accounted o (events ++ [event]) row' := by
  have hpays : History.paid (events ++ [event]) o.agent = events.paid o.agent := by
    rw [History.paid_concat, hpaid, payment]
    by_cases hzero : amount = 0
    · simp [hzero]
    · rw [if_neg (hagent hzero).symm, add_zero]
  have hratified : History.Ratified (events ++ [event]) o ↔ events.Ratified o :=
    ratified_concat_of_not_approve haction
  refine h.concat hpaid hwho hrow ?_ ?_ hlawful hreflects
  · intro hr
    rw [hpays]
    exact h.fee (hratified.mp hr)
  · intro hr
    rw [hpays]
    exact h.noFee (mt hratified.mpr hr)

theorem payment_nonneg (hamount : 0 ≤ amount) (name : AccountName) : 0 ≤ payment who amount name := by
  unfold payment
  split <;> omega

/-- What `validate` promises of the opening of an escrow. -/
theorem opening_of_validate (hvalid : o.validate rules = .ok ()) :
    0 ≤ o.fee.amount ∧ 0 < o.blurtAmount.amount ∧ o.fromAccount ≠ o.agent ∧ o.toAccount ≠ o.agent ∧
      o.fee.symbol = .blurt ∧ o.blurtAmount.symbol = .blurt := by
  simp only [EscrowTransferOperation.validate, Outcome.bind_eq_ok, Outcome.ensure_eq_ok] at hvalid
  obtain ⟨_, -, _, -, _, -, _, hfee, _, hamount, _, hagent, _, hsymbol, _, hsymbol', -⟩ := hvalid
  exact ⟨hfee, hamount, hagent.1, hagent.2, hsymbol, hsymbol'⟩

theorem accounted_opened (hvalid : o.validate rules = .ok ()) {id : Nat} :
    Accounted o [] (some
      { id := id
        toAccount := o.toAccount
        agent := o.agent
        ratificationDeadline := o.ratificationDeadline
        escrowExpiration := o.escrowExpiration
        blurtBalance := o.blurtAmount
        pendingFee := o.fee }) := by
  obtain ⟨-, hamount, -, -, hfeeSymbol, hsymbol⟩ := opening_of_validate hvalid
  refine ⟨by simp [remaining, content], by simp, ?_, by simp, History.lawful_nil, ?_⟩
  · rintro ⟨hto, -⟩
    exact absurd hto History.not_approvedBy_nil
  · intro e he
    cases he
    exact ⟨rfl, rfl, rfl, by simp, by simp, by simp, by simp, hsymbol, hfeeSymbol, hamount.le,
      by simp [isApproved]⟩

theorem Reflects.content_nonneg (h : e.Reflects o events) (hfee : 0 ≤ o.fee.amount) :
    0 ≤ e.content := by
  have hbalance := h.nonneg
  have hpending := h.pendingFee
  unfold content
  split at hpending <;> omega

/-- A rejection or an expiry. -/
theorem Accounted.refund (hvalid : o.validate rules = .ok ()) (h : Accounted o events (some e))
    (hopen : e.isApproved = false) (hpaid : event.paid = payment o.fromAccount e.content)
    (haction : ∀ name, event.action ≠ .approve name) :
    Accounted o (events ++ [event]) none := by
  obtain ⟨hfee, -, hagent, -⟩ := opening_of_validate hvalid
  have hreflects := h.reflects e rfl
  have hnot : ¬ events.Ratified o := by
    rw [← hreflects.ratified_iff, hopen]
    simp
  refine h.concat_of_not_approve hpaid (mem_parties.mpr (.inl rfl)) (fun _ => hagent)
    (by simp [remaining]) haction ⟨?_, ?_, ?_, ?_⟩ (by simp)
  · intro _ name hname
    rw [hpaid, payment, if_neg hname]
  · rw [hpaid]
    exact payment_nonneg (hreflects.content_nonneg hfee)
  · intro hratified
    exact absurd hratified hnot
  · intro hdisputed
    have happroved := hreflects.ratified (hreflects.disputed.mpr hdisputed)
    rw [hopen] at happroved
    cases happroved

/-- The row after the approval by `who`. -/
def approvedBy (e : Escrow) (who : AccountName) : Escrow :=
  { e with
    toApproved := e.toApproved || who = e.toAccount
    agentApproved := e.agentApproved || who = e.agent }

theorem Reflects.approvedBy_concat (h : e.Reflects o events) (haction : event.action = .approve who)
    (htime : event.time ≤ e.ratificationDeadline) :
    ((e.approvedBy who).toApproved ↔
        History.ApprovedBy (events ++ [event]) o.toAccount o.ratificationDeadline) ∧
      ((e.approvedBy who).agentApproved ↔
        History.ApprovedBy (events ++ [event]) o.agent o.ratificationDeadline) := by
  rw [h.deadline] at htime
  simp [approvedBy, h.toApproved, h.agentApproved, h.toAccount, h.agent, haction, htime]

theorem Reflects.not_disputed (h : e.Reflects o events) (hopen : e.isApproved = false) :
    ¬ events.Disputed := by
  intro hdisputed
  have happroved := h.ratified (h.disputed.mpr hdisputed)
  rw [hopen] at happroved
  cases happroved

/-- An approval that the other party still has to follow. -/
theorem Accounted.approve (h : Accounted o events (some e))
    (hopen : e.isApproved = false) (haction : event.action = .approve who)
    (htime : event.time ≤ e.ratificationDeadline) (hpaid : event.paid = 0)
    (hwaits : (e.approvedBy who).isApproved = false) :
    Accounted o (events ++ [event]) (some (e.approvedBy who)) := by
  have hreflects := h.reflects e rfl
  obtain ⟨hto, hagent⟩ := hreflects.approvedBy_concat haction htime
  have hnot : ¬ History.Ratified (events ++ [event]) o := by
    rw [History.Ratified, ← hto, ← hagent, ← Bool.and_eq_true]
    exact (Bool.eq_false_iff.mp hwaits)
  have hnotBefore : ¬ events.Ratified o := by
    rw [← hreflects.ratified_iff, hopen]
    simp
  have hzero : event.paid = payment o.fromAccount 0 := by
    funext name
    simp [hpaid, payment]
  refine h.concat hzero (mem_parties.mpr (.inl rfl)) (by simp [remaining, content, approvedBy])
    (fun hr => absurd hr hnot) ?_ ⟨?_, ?_, ?_, ?_⟩ ?_
  · intro _
    rw [History.paid_concat, h.noFee hnotBefore, hpaid]
    rfl
  · intro _ name _
    rw [hpaid]
    rfl
  · intro name
    rw [hpaid]
    rfl
  · exact fun hr => absurd hr hnotBefore
  · exact fun hd => absurd hd (hreflects.not_disputed hopen)
  · intro _ he
    cases he
    refine ⟨hreflects.toAccount, hreflects.agent, hreflects.deadline, hto, hagent, ?_, ?_,
      hreflects.balance, hreflects.fee, hreflects.nonneg, ?_⟩
    · simp [haction, approvedBy, hreflects.disputed]
    · intro hd
      exact absurd (hreflects.disputed.mp hd) (hreflects.not_disputed hopen)
    · have hfee := hreflects.pendingFee
      rw [hopen] at hfee
      rw [hwaits]
      exact hfee

/-- The approval of the second party, which pays the agent. -/
theorem Accounted.ratify (hvalid : o.validate rules = .ok ()) (h : Accounted o events (some e))
    (hopen : e.isApproved = false) (haction : event.action = .approve who)
    (htime : event.time ≤ e.ratificationDeadline)
    (hpaid : event.paid = payment o.agent e.pendingFee.amount)
    (hall : (e.approvedBy who).isApproved) :
    Accounted o (events ++ [event])
      (some { e.approvedBy who with pendingFee := { e.pendingFee with amount := 0 } }) := by
  obtain ⟨hfee, -⟩ := opening_of_validate hvalid
  have hreflects := h.reflects e rfl
  obtain ⟨hto, hagent⟩ := hreflects.approvedBy_concat haction htime
  have hratified : History.Ratified (events ++ [event]) o := by
    rw [History.Ratified, ← hto, ← hagent, ← Bool.and_eq_true]
    exact hall
  have hnotBefore : ¬ events.Ratified o := by
    rw [← hreflects.ratified_iff, hopen]
    simp
  have hpending : e.pendingFee.amount = o.fee.amount := by
    rw [hreflects.pendingFee, hopen]
    rfl
  refine h.concat hpaid (mem_parties.mpr (.inr (.inr rfl))) ?_ ?_ (fun hr => absurd hratified hr)
    ⟨fun hr => absurd hratified hr, ?_, ?_, ?_⟩ ?_
  · simp [remaining, content, approvedBy]
  · intro _
    rw [History.paid_concat, h.noFee hnotBefore, hpaid, payment, if_pos rfl, hpending, zero_add]
  · rw [hpaid]
    exact payment_nonneg (by omega)
  · exact fun hr => absurd hr hnotBefore
  · exact fun hd => absurd hd (hreflects.not_disputed hopen)
  · intro _ he
    cases he
    refine ⟨hreflects.toAccount, hreflects.agent, hreflects.deadline, hto, hagent, ?_, ?_,
      hreflects.balance, hreflects.fee, hreflects.nonneg, ?_⟩
    · simp [haction, approvedBy, hreflects.disputed]
    · intro _
      exact hall
    · exact (if_pos hall).symm

theorem Accounted.dispute (h : Accounted o events (some e)) (hall : e.isApproved)
    (hopen : e.disputed = false) (haction : event.action = .dispute who) (hpaid : event.paid = 0) :
    Accounted o (events ++ [event]) (some { e with disputed := true }) := by
  have hreflects := h.reflects e rfl
  have hnot : ∀ name, event.action ≠ .approve name := by
    intro name
    rw [haction]
    simp
  have hzero : event.paid = payment o.fromAccount 0 := by
    funext name
    simp [hpaid, payment]
  refine h.concat_of_not_approve hzero (mem_parties.mpr (.inl rfl)) (by simp)
    (by simp [remaining, content]) hnot ⟨?_, ?_, ?_, ?_⟩ ?_
  · intro _ name _
    rw [hpaid]
    rfl
  · intro name
    rw [hpaid]
    rfl
  · intro _
    simp [haction]
  · intro hd
    rw [← hreflects.disputed, hopen] at hd
    cases hd
  · intro _ he
    cases he
    refine ⟨hreflects.toAccount, hreflects.agent, hreflects.deadline, ?_, ?_, ?_, fun _ => hall,
      hreflects.balance, hreflects.fee, hreflects.nonneg, hreflects.pendingFee⟩
    · simpa [haction] using hreflects.toApproved
    · simpa [haction] using hreflects.agentApproved
    · simp [haction]

/-- A release, of part of the escrow or of the rest of it. -/
theorem Accounted.release (hvalid : o.validate rules = .ok ()) (h : Accounted o events (some e))
    (hall : e.isApproved) {receiver : AccountName} (haction : event.action = .release who receiver)
    (hpaid : event.paid = payment receiver amount)
    (hreceiver : receiver = o.fromAccount ∨ receiver = o.toAccount)
    (hdisputed : e.disputed → who = e.agent) (hamount : 0 ≤ amount)
    (hrow : amount = e.blurtBalance.amount ∧ row' = none ∨
      amount < e.blurtBalance.amount ∧ row' = some { e with
        blurtBalance := { e.blurtBalance with amount := e.blurtBalance.amount - amount } }) :
    Accounted o (events ++ [event]) row' := by
  obtain ⟨-, -, hfrom, hto, -⟩ := opening_of_validate hvalid
  have hreflects := h.reflects e rfl
  have hratified : events.Ratified o := hreflects.ratified_iff.mp hall
  have hpending : e.pendingFee.amount = 0 := by
    rw [hreflects.pendingFee, if_pos hall]
  have hnot : ∀ name, event.action ≠ .approve name := by
    intro name
    rw [haction]
    simp
  have hmem : receiver ∈ parties o := mem_parties.mpr (hreceiver.imp_right .inl)
  have hagent : receiver ≠ o.agent := by
    rcases hreceiver with rfl | rfl
    · exact hfrom
    · exact hto
  refine h.concat_of_not_approve hpaid hmem (fun _ => hagent) ?_ hnot ⟨?_, ?_, ?_, ?_⟩ ?_
  · rcases hrow with ⟨hrest, rfl⟩ | ⟨-, rfl⟩ <;>
      simp only [remaining, content, Option.map_some, Option.getD_some, Option.map_none,
        Option.getD_none] <;> omega
  · intro hr
    exact absurd ((ratified_concat_of_not_approve hnot).mpr hratified) hr
  · rw [hpaid]
    exact payment_nonneg hamount
  · intro _
    simp [haction]
  · intro hd
    have hwho := hdisputed (hreflects.disputed.mpr hd)
    exact ⟨receiver, by rw [haction, hwho, hreflects.agent]⟩
  · intro _ he
    rcases hrow with ⟨-, rfl⟩ | ⟨hless, rfl⟩
    · cases he
    · cases he
      refine ⟨hreflects.toAccount, hreflects.agent, hreflects.deadline, ?_, ?_, ?_, fun _ => hall,
        hreflects.balance, hreflects.fee, ?_, hreflects.pendingFee⟩
      · simpa [haction] using hreflects.toApproved
      · simpa [haction] using hreflects.agentApproved
      · simpa [haction] using hreflects.disputed
      · have := hreflects.nonneg
        dsimp only
        omega

/-! ## The steps of the ledger -/

/-- Every accepted operation is a step of every open escrow. -/
theorem step_of_applyOperation {db db' : Database} {host : Host} {op : Operation}
    {key : AccountName × Nat} (hvalid : op.validate rules = .ok ())
    (happly : Database.applyOperation host db op = .ok db')
    (hopen : (db.escrows.find? key).isSome) : ∃ occurrence, Step key db occurrence db' := by
  by_cases hkey : Database.escrowKey op = some key
  · cases op with
    | escrowTransfer o =>
        obtain ⟨-, -, -, -, hfee, -⟩ := opening_of_validate hvalid
        obtain ⟨-, hnone, -⟩ := Database.escrowTransfer_books hfee happly
        rw [Database.find?_escrows, Option.some_inj.mp hkey] at hnone
        rw [hnone] at hopen
        cases hopen
    | escrowApprove o => exact ⟨_, .approve hvalid (Option.some_inj.mp hkey) happly⟩
    | escrowDispute o => exact ⟨_, .dispute hvalid (Option.some_inj.mp hkey) happly⟩
    | escrowRelease o => exact ⟨_, .release hvalid (Option.some_inj.mp hkey) happly⟩
    | _ => cases hkey
  · exact ⟨none, .elsewhere (Database.applyOperation_escrows hvalid happly hkey)⟩

/-- The expiry of the ratifications at the end of a block is a run of every escrow. -/
theorem run_of_expireEscrowRatification {db db' : Database} {key : AccountName × Nat}
    (h : db.expireEscrowRatification = .ok db') : ∃ events, Run key db events db' := by
  refine Outcome.drain_invariant (fun state => ∃ events, Run key db events state) ?_
    ⟨[], .refl db⟩ h
  rintro state row state' ⟨events, hrun⟩ hnext hturn
  by_cases hkey : row.1 = key
  · exact ⟨_, hrun.tail (.expire hnext hkey hturn)⟩
  · refine ⟨_, hrun.tail (.elsewhere ?_)⟩
    simp only [Database.expireEscrow, Outcome.bind_eq_ok, Outcome.pure_eq_ok] at hturn
    obtain ⟨refunded, hrefunded, returned, hreturned, rfl⟩ := hturn
    have hfirst := (Database.adjustBalance_fund hrefunded).2.2
    have hsecond := (Database.adjustBalance_fund hreturned).2.2
    rw [Store.find?_remove, if_neg (Ne.symm hkey), hsecond, hfirst]

/-- What every step of an escrow preserves. -/
theorem Accounted.step {db db' : Database} {occurrence : Option Event}
    (hvalid : o.validate rules = .ok ())
    (h : Accounted o events (db.escrows.find? (o.fromAccount, o.escrowId)))
    (hstep : Step (o.fromAccount, o.escrowId) db occurrence db') :
    Accounted o (events ++ occurrence.toList)
      (db'.escrows.find? (o.fromAccount, o.escrowId)) := by
  cases hstep with
  | @approve _ op hopValid hkey happly =>
      obtain ⟨e, approved, happroves, heq, hcases⟩ := Database.escrowApprove_spec happly
      obtain ⟨hfrom, hid⟩ := Prod.mk.injEq .. ▸ hkey
      rw [hkey] at hcases
      have hfound := happroves.found
      rw [hkey] at hfound
      rw [hfound] at h
      have hreflects := h.reflects e rfl
      simp only [EscrowApproveOperation.validate, Outcome.bind_eq_ok,
        Outcome.ensure_eq_ok] at hopValid
      obtain ⟨_, -, _, -, _, -, _, -, hwho⟩ := hopValid
      -- the party that approves or rejects has not approved yet
      have hopen : e.isApproved = false := by
        rw [isApproved]
        rcases hwho with hto | hagent
        · rw [happroves.toOpen (hto.trans happroves.toAccount.symm)]
          rfl
        · rw [happroves.agentOpen (hagent.trans happroves.agent.symm), Bool.and_false]
      rcases hcases hreflects.balance hreflects.fee with
        ⟨hrejects, hgrowth, hrow⟩ | ⟨happrove, hall, hgrowth, hrow⟩ | ⟨happrove, hwaits, hgrowth, hrow⟩
      · rw [hrow]
        refine h.refund hvalid hopen ?_ ?_
        · rw [← hfrom]
          exact hgrowth
        · intro name
          simp [hrejects]
      · have heq : approved = e.approvedBy op.who := by
          rw [heq, happrove]
          simp [approvedBy]
        rw [hrow, heq]
        rw [heq] at hall
        refine h.ratify hvalid hopen (by simp [happrove]) happroves.inTime ?_ hall
        rw [← hreflects.agent]
        exact hgrowth
      · have heq : approved = e.approvedBy op.who := by
          rw [heq, happrove]
          simp [approvedBy]
        rw [hrow, heq]
        rw [heq] at hwaits
        exact h.approve hopen (by simp [happrove]) happroves.inTime hgrowth hwaits
  | @dispute _ op hopValid hkey happly =>
      obtain ⟨e, hfound, hall, hopen, hgrowth, hrow⟩ := Database.escrowDispute_spec happly
      rw [hkey] at hfound hrow
      rw [hfound] at h
      rw [hrow]
      exact h.dispute hall hopen rfl hgrowth
  | @release _ op hopValid hkey happly =>
      obtain ⟨e, hfound, hall, hreceiver, hdisputed, hpositive, -, hgrowth, hrow⟩ :=
        Database.escrowRelease_spec hopValid happly
      obtain ⟨hfrom, -⟩ := Prod.mk.injEq .. ▸ hkey
      rw [hkey] at hfound hrow
      rw [hfound] at h
      have hreflects := h.reflects e rfl
      rw [hfrom, hreflects.toAccount] at hreceiver
      exact h.release hvalid hall rfl hgrowth hreceiver hdisputed hpositive.le hrow
  | @expire _ row hnext hkey happly =>
      obtain ⟨hfound, hopen, -, hrow, hgrowth⟩ := Database.expireEscrow_spec hnext happly
      rw [hkey] at hfound hrow
      rw [hfound] at h
      have hreflects := h.reflects row.2 rfl
      rw [hrow]
      refine h.refund hvalid hopen ?_ (by simp)
      have hfrom : row.1.1 = o.fromAccount := by rw [hkey]
      rw [← hfrom]
      exact hgrowth hreflects.balance hreflects.fee
  | elsewhere hrow =>
      rw [hrow, Option.toList_none, List.append_nil]
      exact h

/-- What every run of an escrow preserves. -/
theorem Accounted.run {db db' : Database} (hvalid : o.validate rules = .ok ())
    (h : Accounted o [] (db.escrows.find? (o.fromAccount, o.escrowId)))
    (hrun : Run (o.fromAccount, o.escrowId) db events db') :
    Accounted o events (db'.escrows.find? (o.fromAccount, o.escrowId)) := by
  induction hrun with
  | refl => exact h
  | tail _ hstep ih => exact ih.step hvalid hstep

/-- An escrow that pays out exactly once. -/
structure PaysOnce (o : EscrowTransferOperation) (events : History) (closed : Prop) : Prop where
  atMost : ∑ name ∈ parties o, events.paid name ≤ o.blurtAmount.amount + o.fee.amount
  whenClosed : closed →
    ∑ name ∈ parties o, events.paid name = o.blurtAmount.amount + o.fee.amount
  outsiders : ∀ name, name ∉ parties o → events.paid name = 0
  fee : events.Ratified o → events.paid o.agent = o.fee.amount
  noFee : ¬ events.Ratified o → events.paid o.agent = 0
  lawful : events.Lawful o

/-- Whatever happens to an escrow after it was opened, it pays out its deposit once. -/
theorem run_paysOnce {db db' db'' : Database} (hvalid : o.validate rules = .ok ())
    (hopened : db.escrowTransfer o = .ok db')
    (hrun : Run (o.fromAccount, o.escrowId) db' events db'') :
    PaysOnce o events (db''.escrows.find? (o.fromAccount, o.escrowId) = none) := by
  obtain ⟨id, hid⟩ := Database.escrowTransfer_opens hvalid hopened
  have hstart : Accounted o [] (db'.escrows.find? (o.fromAccount, o.escrowId)) := by
    rw [hid]
    exact accounted_opened hvalid
  have hend := hstart.run hvalid hrun
  have htotal := hend.total
  refine ⟨?_, ?_, hend.outsiders, hend.fee, hend.noFee, hend.lawful⟩
  · have hremaining : 0 ≤ remaining (db''.escrows.find? (o.fromAccount, o.escrowId)) := by
      cases hrow : db''.escrows.find? (o.fromAccount, o.escrowId) with
      | none => exact le_rfl
      | some e => exact (hend.reflects e hrow).content_nonneg (opening_of_validate hvalid).1
    omega
  · intro hclosed
    rw [hclosed] at htotal
    simpa [remaining] using htotal

end Escrow

namespace Sample

/-- `alice` holds 10; `bob` and `carol` hold nothing. -/
def threeAccounts : Database where
  dgp := { time := 1000, currentWitness := "initminer" }
  processedHardforks := [0]
  accounts := twoAccounts.set "carol" { id := 2 }

/-- `alice` deposits 5 for `bob`, and 1 for the agent `carol`. -/
def aliceDeposits : EscrowTransferOperation where
  fromAccount := "alice"
  toAccount := "bob"
  agent := "carol"
  escrowId := 1
  blurtAmount := .blurt 5
  fee := .blurt 1
  ratificationDeadline := 2000
  escrowExpiration := 3000
  jsonMeta := ""

def approval (who : AccountName) : EscrowApproveOperation where
  fromAccount := "alice"
  toAccount := "bob"
  agent := "carol"
  who := who
  escrowId := 1
  approve := true

def aliceReleases : EscrowReleaseOperation where
  fromAccount := "alice"
  toAccount := "bob"
  agent := "carol"
  who := "alice"
  receiver := "bob"
  escrowId := 1
  blurtAmount := .blurt 5

/-- The escrow of `alice`, approved by both and released to `bob`. -/
theorem aliceDeposits_paysOnce :
    ∃ opened closed events, threeAccounts.escrowTransfer aliceDeposits = .ok opened ∧
      Escrow.Run ("alice", 1) opened events closed ∧ events.length = 3 ∧
      closed.escrows.find? ("alice", 1) = none ∧
      Escrow.PaysOnce aliceDeposits events (closed.escrows.find? ("alice", 1) = none) := by
  obtain ⟨opened, closed, events, hopened, hrun, hlength, hclosed⟩ :
      ∃ opened closed events, threeAccounts.escrowTransfer aliceDeposits = .ok opened ∧
        Escrow.Run ("alice", 1) opened events closed ∧ events.length = 3 ∧
        closed.escrows.find? ("alice", 1) = none :=
    ⟨_, _, _, rfl, (((Escrow.Run.refl _).tail (.approve (o := approval "bob") rfl rfl rfl)).tail
      (.approve (o := approval "carol") rfl rfl rfl)).tail
        (.release (o := aliceReleases) rfl rfl rfl), rfl, rfl⟩
  exact ⟨opened, closed, events, hopened, hrun, hlength, hclosed,
    @Escrow.run_paysOnce plainHost.rules aliceDeposits _ _ _ _ rfl hopened hrun⟩

end Sample

end Ledger

end Blurt
