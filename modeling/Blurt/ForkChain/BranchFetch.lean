import Blurt.ForkChain.ForkDatabaseLaws
import Mathlib.Logic.Relation

/-! # Branches between two blocks

A fork database in use is consistent with the items that it has ever kept. Between two
indexed items that are linked to a common ancestor `fetch_branch_from` always answers:
the branches start at the two items, part from one block, and have an item in common
only where one of the two items is an ancestor of the other.
-/

namespace Blurt

variable {T : Type}

namespace ForkDatabase

/-- A fork database after some calls, with the items that were in it so far. A caller
of `pop_block` or `set_head` holds such items only. -/
inductive Used : Set (ForkItem T) → ForkDatabase T → Prop
  | opened : Used ∅ {}
  | startBlock {family : Set (ForkItem T)} {fdb : ForkDatabase T} (b : SignedBlock T)
      (h : Used family fdb) : Used (family ∪ {x | x ∈ (fdb.startBlock b).live}) (fdb.startBlock b)
  | pushBlock {family : Set (ForkItem T)} {fdb next : ForkDatabase T} {b : SignedBlock T}
      (h : Used family fdb) (hpush : fdb.pushBlock b = .ok next) :
      Used (family ∪ {x | x ∈ next.live}) next
  | popBlock {family : Set (ForkItem T)} {fdb next : ForkDatabase T} {held : List (ForkItem T)}
      (h : Used family fdb) (hheld : ∀ x ∈ held, x ∈ family) (hpop : fdb.popBlock held = .ok next) :
      Used family next
  | setHead {family : Set (ForkItem T)} {fdb : ForkDatabase T} {item : ForkItem T}
      (h : Used family fdb) (hitem : item ∈ family) : Used family (fdb.setHead item)
  | setMaxSize {family : Set (ForkItem T)} {fdb : ForkDatabase T} (size : Nat)
      (h : Used family fdb) : Used family (fdb.setMaxSize size)
  | remove {family : Set (ForkItem T)} {fdb : ForkDatabase T} (id : BlockId)
      (h : Used family fdb) : Used family (fdb.remove id)

/-- `ancestor` is reached from an item over parent pointers to indexed items. -/
def Linked (fdb : ForkDatabase T) : ForkItem T → ForkItem T → Prop :=
  Relation.ReflTransGen fun item parent => parent ∈ fdb.index ∧ item.Follows parent

/-- What `fetch_branch_from` finds between two items. -/
structure Branches (fdb : ForkDatabase T) (a b : ForkItem T) (first second : List (ForkItem T)) :
    Prop where
  firstBranch : Branch first
  secondBranch : Branch second
  firstHead : first.head? = some a
  secondHead : second.head? = some b
  indexed : (∀ x ∈ first, x ∈ fdb.index) ∧ ∀ x ∈ second, x ∈ fdb.index
  /-- Taking the second branch off the chain and putting the first on leads from `b` to `a`. -/
  parted : ∃ common : BlockId, a.id.ancestry = common.ancestry ++ (first.map ForkItem.id).reverse ∧
    b.id.ancestry = common.ancestry ++ (second.map ForkItem.id).reverse
  below : fdb.Linked a b → second = [b]
  above : fdb.Linked b a → first = [a]
  disjoint : ¬ fdb.Linked a b → ¬ fdb.Linked b a → ∀ x ∈ first, ∀ y ∈ second, x.id ≠ y.id

section Used

variable {family : Set (ForkItem T)} {fdb next : ForkDatabase T} {b : SignedBlock T}

theorem consistent_opened : ({} : ForkDatabase T).Consistent ∅ := by
  constructor <;> simp [live]

theorem Consistent.startBlock (h : fdb.Consistent family) (b : SignedBlock T) :
    (fdb.startBlock b).Consistent (Insert.insert { ref := fdb.nextRef, data := b } family) := by
  have hfresh : ∀ x ∈ family, x.ref ≠ fdb.nextRef := fun x hx => (h.fresh x hx).ne
  constructor
  · intro x hx
    rcases mem_live.mp hx with hx | hx
    · rcases mem_insert.mp hx with hx | ⟨rfl, -⟩
      · exact Or.inr (h.index hx)
      · exact Or.inl rfl
    · exact Or.inl (Option.some.inj hx).symm
  · rintro x (rfl | hx)
    · exact Nat.lt_succ_self _
    · exact (h.fresh x hx).trans (Nat.lt_succ_self _)
  · rintro x (rfl | hx) y (rfl | hy) href
    · rfl
    · exact absurd href.symm (hfresh y hy)
    · exact absurd href (hfresh x hx)
    · exact h.unique x hx y hy href
  · rintro x (rfl | hx) ref href
    · cases href
    · obtain ⟨y, hy, hyref, hid⟩ := h.parent x hx ref href
      exact ⟨y, Or.inr hy, hyref, hid⟩
  · rintro x (rfl | hx)
    · rfl
    · exact h.valid x hx
  · exact nodup_insert h.nodup

/-- The items that were in a fork database belong to one family. -/
theorem Used.consistent (h : Used family fdb) :
    ∃ items : Set (ForkItem T), family ⊆ items ∧ fdb.Consistent items := by
  induction h with
  | opened => exact ⟨∅, Set.Subset.refl _, consistent_opened⟩
  | startBlock b h ih =>
      obtain ⟨items, hsubset, hconsistent⟩ := ih
      have hstarted := hconsistent.startBlock b
      refine ⟨_, ?_, hstarted⟩
      rintro x (hx | hx)
      · exact Or.inr (hsubset hx)
      · exact hstarted.live x hx
  | pushBlock h hpush ih =>
      obtain ⟨items, hsubset, hconsistent⟩ := ih
      obtain ⟨item, hpushed⟩ := pushBlock_spec hpush
      have hnext := hpushed.consistent hconsistent
      refine ⟨_, ?_, hnext⟩
      rintro x (hx | hx)
      · exact Or.inr (hsubset hx)
      · exact hnext.live x hx
  | @popBlock family fdb next held h hheld hpop ih =>
      obtain ⟨items, hsubset, hconsistent⟩ := ih
      have hheld' : ∀ x ∈ held, x ∈ items := fun x hx => hsubset (hheld x hx)
      cases hhead : fdb.head with
      | none => simp [ForkDatabase.popBlock, hhead] at hpop
      | some head =>
          obtain ⟨parent, hparent, -, rfl⟩ := (popBlock_spec hconsistent hheld' hhead).mp hpop
          refine ⟨items, hsubset, hconsistent.setHead ?_⟩
          rcases hparent with hparent | hparent
          · exact hconsistent.live parent hparent
          · exact hheld' parent hparent
  | setHead h hitem ih =>
      obtain ⟨items, hsubset, hconsistent⟩ := ih
      exact ⟨items, hsubset, hconsistent.setHead (hsubset hitem)⟩
  | setMaxSize size h ih =>
      obtain ⟨items, hsubset, hconsistent⟩ := ih
      exact ⟨items, hsubset, hconsistent.setMaxSize size⟩
  | remove id h ih =>
      obtain ⟨items, hsubset, hconsistent⟩ := ih
      exact ⟨items, hsubset, hconsistent.remove id⟩

end Used

section Walks

variable {family : Set (ForkItem T)} {fdb : ForkDatabase T}
  {a b ancestor : ForkItem T}

namespace Linked

theorem mem_index (h : fdb.Linked a b) (ha : a ∈ fdb.index) : b ∈ fdb.index := by
  induction h with
  | refl => exact ha
  | tail _ hlast _ => exact hlast.1

theorem num_le (h : fdb.Linked a b) (hfdb : fdb.Consistent family) (ha : a ∈ fdb.index) :
    b.num ≤ a.num := by
  induction h with
  | refl => exact le_rfl
  | tail hinit hlast ih =>
      have hmem := mem_index hinit ha
      have hnum := hfdb.follows_num (hfdb.index hmem) (hfdb.index hlast.1) hlast.2
      omega

/-- Above the ancestor there is a next item, from which it is reached as well. -/
theorem parent (h : fdb.Linked a ancestor) (hne : a ≠ ancestor) :
    ∃ parent ∈ fdb.index, a.Follows parent ∧ fdb.Linked parent ancestor := by
  rcases Relation.ReflTransGen.cases_head h with rfl | ⟨parent, ⟨hmem, hfollows⟩, hrest⟩
  · exact absurd rfl hne
  · exact ⟨parent, hmem, hfollows, hrest⟩

/-- Of two items that are reached from one, the higher is linked to the lower. -/
theorem total {top : ForkItem T} (ha : fdb.Linked top a) (hb : fdb.Linked top b)
    (hfdb : fdb.Consistent family) (htop : top ∈ fdb.index) (hnum : b.num ≤ a.num) :
    fdb.Linked a b := by
  induction ha using Relation.ReflTransGen.head_induction_on with
  | refl => exact hb
  | @head x parent hstep hrest ih =>
      by_cases heq : x = b
      · subst heq
        have hparent := hfdb.follows_num (hfdb.index htop) (hfdb.index hstep.1) hstep.2
        have hle := num_le hrest hfdb hstep.1
        omega
      · obtain ⟨other, hother, hfollows, hlinked⟩ := hb.parent heq
        have hsame := hfdb.follows_unique (hfdb.index hstep.1) (hfdb.index hother) hstep.2 hfollows
        subst hsame
        exact ih hlinked hother

theorem eq_of_num (h : fdb.Linked a b) (hfdb : fdb.Consistent family) (ha : a ∈ fdb.index)
    (hnum : a.num ≤ b.num) : a = b := by
  by_contra hne
  obtain ⟨parent, hparent, hfollows, hlinked⟩ := h.parent hne
  have hstep := hfdb.follows_num (hfdb.index ha) (hfdb.index hparent) hfollows
  have hle := hlinked.num_le hfdb hparent
  omega

end Linked

/-- The parent of a linked item is locked. -/
theorem lock_parent (hfdb : fdb.Consistent family) (hparent : b ∈ fdb.index)
    (hfollows : a.Follows b) : fdb.lock [] a.prev = some b :=
  (hfdb.lock_eq_some (by simp)).mpr ⟨Or.inl (mem_live.mpr (Or.inl hparent)), hfollows⟩

/-- The walk down from an item that is linked to a low ancestor stops at the height. -/
theorem walkDown_linked (hfdb : fdb.Consistent family) {height fuel : Nat} (ha : a ∈ fdb.index)
    (hlinked : fdb.Linked a ancestor) (hheight : ancestor.num ≤ height) (hfuel : a.num ≤ fuel) :
    ∃ branch last, fdb.walkDown height fuel a = .ok (branch, last) ∧
      (∀ x ∈ branch, x ∈ fdb.index) ∧ fdb.Linked a last ∧ fdb.Linked last ancestor ∧
      last.num = min a.num height := by
  induction fuel generalizing a with
  | zero =>
      have hpos : 0 < a.num := Nat.succ_pos _
      omega
  | succ fuel ih =>
      unfold walkDown
      by_cases hle : a.num ≤ height
      · rw [if_pos hle]
        exact ⟨[], a, rfl, by simp, .refl, hlinked, by omega⟩
      · obtain ⟨parent, hparent, hfollows, hrest⟩ := hlinked.parent (by
          rintro rfl
          exact hle hheight)
        have hstep := hfdb.follows_num (hfdb.index ha) (hfdb.index hparent) hfollows
        obtain ⟨branch, last, hwalk, hindexed, hdown, hlast, hnum⟩ := ih hparent hrest (by omega)
        rw [if_neg hle]
        simp only [lock_parent hfdb hparent hfollows, hwalk]
        refine ⟨a :: branch, last, rfl, List.forall_mem_cons.mpr ⟨ha, hindexed⟩, ?_, hlast, by omega⟩
        exact Relation.ReflTransGen.head ⟨hparent, hfollows⟩ hdown

/-- Two linked items of one height are walked down to items with one previous block, and
the branches stay apart unless they start at one item. -/
theorem walkTogether_linked (hfdb : fdb.Consistent family) {fuel : Nat} (ha : a ∈ fdb.index)
    (hb : b ∈ fdb.index) (hfirst : fdb.Linked a ancestor) (hsecond : fdb.Linked b ancestor)
    (hnum : a.num = b.num) (hfuel : a.num ≤ fuel) :
    ∃ branch branch', fdb.walkTogether fuel a b = .ok (branch, branch') ∧
      (∀ x ∈ branch, x ∈ fdb.index ∧ x.num ≤ a.num) ∧
      (∀ x ∈ branch', x ∈ fdb.index ∧ x.num ≤ b.num) ∧
      (a ≠ b → ∀ x ∈ branch, ∀ y ∈ branch', x.id ≠ y.id) ∧
      (a = b → branch = [a] ∧ branch' = [b]) := by
  induction fuel generalizing a b with
  | zero =>
      have hpos : 0 < a.num := Nat.succ_pos _
      omega
  | succ fuel ih =>
      unfold walkTogether
      by_cases hsame : a.data.previous = b.data.previous
      · rw [if_pos hsame]
        refine ⟨[a], [b], rfl, by simpa using ha, by simpa using hb, ?_, fun _ => ⟨rfl, rfl⟩⟩
        intro hne x hx y hy
        rw [List.mem_singleton.mp hx, List.mem_singleton.mp hy]
        exact fun hid => hne (hfdb.eq_of_id_eq ha hb hid)
      · have hne : a ≠ b := by
          rintro rfl
          exact hsame rfl
        -- an item at the height of the ancestor is the ancestor
        have hbelow : a ≠ ancestor ∧ b ≠ ancestor := by
          constructor
          · rintro rfl
            exact hne (hsecond.eq_of_num hfdb hb hnum.ge).symm
          · rintro rfl
            exact hne (hfirst.eq_of_num hfdb ha hnum.le)
        obtain ⟨parent, hparent, hfollows, hrest⟩ := hfirst.parent hbelow.1
        obtain ⟨parent', hparent', hfollows', hrest'⟩ := hsecond.parent hbelow.2
        have hstep := hfdb.follows_num (hfdb.index ha) (hfdb.index hparent) hfollows
        have hstep' := hfdb.follows_num (hfdb.index hb) (hfdb.index hparent') hfollows'
        have hid : parent.id = a.data.previous :=
          hfdb.follows_id (hfdb.index ha) (hfdb.index hparent) hfollows
        have hid' : parent'.id = b.data.previous :=
          hfdb.follows_id (hfdb.index hb) (hfdb.index hparent') hfollows'
        have happart : parent ≠ parent' := by
          rintro rfl
          exact hsame (hid.symm.trans hid')
        obtain ⟨branch, branch', hwalk, hindexed, hindexed', hdisjoint, -⟩ :=
          ih hparent hparent' hrest hrest' (by omega) (by omega)
        rw [if_neg hsame]
        simp only [lock_parent hfdb hparent hfollows, lock_parent hfdb hparent' hfollows', hwalk]
        refine ⟨a :: branch, b :: branch', rfl, ?_, ?_, ?_, fun heq => absurd heq hne⟩
        · refine List.forall_mem_cons.mpr ⟨⟨ha, le_rfl⟩, fun x hx => ⟨(hindexed x hx).1, ?_⟩⟩
          exact (hindexed x hx).2.trans (by omega)
        · refine List.forall_mem_cons.mpr ⟨⟨hb, le_rfl⟩, fun x hx => ⟨(hindexed' x hx).1, ?_⟩⟩
          exact (hindexed' x hx).2.trans (by omega)
        · intro _ x hx y hy hxy
          have hheight := ForkItem.num_eq_of_id_eq hxy
          rcases List.mem_cons.mp hx with rfl | hx
          · rcases List.mem_cons.mp hy with rfl | hy
            · exact hne (hfdb.eq_of_id_eq ha hb hxy)
            · have hlow := (hindexed' y hy).2
              omega
          · rcases List.mem_cons.mp hy with rfl | hy
            · have hlow := (hindexed x hx).2
              omega
            · exact hdisjoint happart x hx y hy hxy

/-- Below a branch comes the chain of what the last item builds on. -/
theorem ancestry_branch (hfdb : fdb.Consistent family) {branch : List (ForkItem T)}
    {last : ForkItem T} (hbranch : Branch branch) (hfamily : ∀ x ∈ branch, x ∈ family)
    (hhead : branch.head? = some a) (hlast : branch.getLast? = some last) :
    a.id.ancestry = last.data.previous.ancestry ++ (branch.map ForkItem.id).reverse := by
  induction branch generalizing a with
  | nil => simp at hhead
  | cons x rest ih =>
      cases hhead
      cases rest with
      | nil =>
          cases hlast
          rfl
      | cons y rest =>
          obtain ⟨hfollows, hrest⟩ := List.isChain_cons_cons.mp hbranch
          have hid : y.id = x.data.previous :=
            hfdb.follows_id (hfamily x (by simp)) (hfamily y (by simp)) hfollows
          have hbelow := ih hrest (fun z hz => hfamily z (List.mem_cons_of_mem x hz)) rfl
            (by rw [← hlast, List.getLast?_cons_cons])
          have hstep : x.id.ancestry = x.data.previous.ancestry ++ [x.id] := rfl
          rw [hstep, ← hid, hbelow, List.map_cons (a := x), List.reverse_cons, List.append_assoc]

theorem walkDown_stay {height : Nat} (fuel : Nat) (hle : a.num ≤ height) :
    fdb.walkDown height fuel a = .ok ([], a) := by
  unfold walkDown
  rw [if_pos hle]

/-- Fetched branches lead from the one item to the other. -/
theorem Fetched.leads (hfdb : fdb.Consistent family) {first second : List (ForkItem T)}
    (ha : a ∈ fdb.index) (hb : b ∈ fdb.index) (fetched : fdb.Fetched a.id b.id first second) :
    (Branch first ∧ first.head? = some a) ∧ (Branch second ∧ second.head? = some b) ∧
      ∃ common : BlockId, a.id.ancestry = common.ancestry ++ (first.map ForkItem.id).reverse ∧
        b.id.ancestry = common.ancestry ++ (second.map ForkItem.id).reverse := by
  have hdescent := fetched.firstDescent
  have hdescent' := fetched.secondDescent
  rw [Option.some.inj (fetched.firstFound.symm.trans (hfdb.find_eq ha))] at hdescent
  rw [Option.some.inj (fetched.secondFound.symm.trans (hfdb.find_eq hb))] at hdescent'
  have hbelow := ancestry_branch hfdb hdescent.chained (hdescent.mem_family hfdb) hdescent.first
    List.getLast?_concat
  have hbelow' := ancestry_branch hfdb hdescent'.chained (hdescent'.mem_family hfdb)
    hdescent'.first List.getLast?_concat
  have hchained := hdescent.chained
  have hchained' := hdescent'.chained
  have hstart := hdescent.first
  have hstart' := hdescent'.first
  rw [← fetched.firstEq] at hbelow hchained hstart
  rw [← fetched.secondEq] at hbelow' hchained' hstart'
  rw [← fetched.joined] at hbelow'
  exact ⟨⟨hchained, hstart⟩, ⟨hchained', hstart'⟩, _, hbelow, hbelow'⟩

/-- Between two items that are linked to a common ancestor the branches are found. -/
theorem Consistent.branches (hfdb : fdb.Consistent family) (ha : a ∈ fdb.index) (hb : b ∈ fdb.index)
    (hfirst : fdb.Linked a ancestor) (hsecond : fdb.Linked b ancestor) :
    ∃ first second, fdb.fetchBranchFrom a.id b.id = .ok (first, second) ∧
      fdb.Branches a b first second := by
  obtain ⟨upper, last, hdown, hupper, hlast, hlastJoin, hnum⟩ :=
    walkDown_linked hfdb ha hfirst (hsecond.num_le hfdb hb) le_rfl
  have hlastMem := hlast.mem_index ha
  obtain ⟨upper', last', hdown', hupper', hlast', hlastJoin', hnum'⟩ :=
    walkDown_linked hfdb hb hsecond (hlastJoin.num_le hfdb hlastMem) le_rfl
  have hlastMem' := hlast'.mem_index hb
  obtain ⟨lower, lower', htogether, hlower, hlower', happart, hmeet⟩ :=
    walkTogether_linked hfdb hlastMem hlastMem' hlastJoin hlastJoin' (by omega) le_rfl
  have hfetch : fdb.fetchBranchFrom a.id b.id = .ok (upper ++ lower, upper' ++ lower') := by
    simp only [fetchBranchFrom, hfdb.find_eq ha, hfdb.find_eq hb, Outcome.require, hdown, hdown',
      htogether, Outcome.ok_bind]
    rfl
  obtain ⟨fetched⟩ := fetchBranchFrom_spec hfdb hfetch
  obtain ⟨⟨hbranch, hhead⟩, ⟨hbranch', hhead'⟩, hparted⟩ := fetched.leads hfdb ha hb
  have habove := (walkDown_spec hfdb (mem_live.mpr (Or.inl ha)) hdown).2.2
  have habove' := (walkDown_spec hfdb (mem_live.mpr (Or.inl hb)) hdown').2.2
  -- the cursor of the lower item stays where it is
  have hstay : b.num ≤ a.num → upper' = [] ∧ last' = b := by
    intro hle
    rw [walkDown_stay _ (by omega)] at hdown'
    cases hdown'
    exact ⟨rfl, rfl⟩
  have hstay' : a.num ≤ b.num → upper = [] ∧ last = a := by
    intro hle
    rw [walkDown_stay _ hle] at hdown
    cases hdown
    exact ⟨rfl, rfl⟩
  refine ⟨_, _, hfetch, ⟨hbranch, hbranch', hhead, hhead', ⟨?_, ?_⟩, hparted, ?_, ?_, ?_⟩⟩
  · intro x hx
    rcases List.mem_append.mp hx with hx | hx
    · exact hupper x hx
    · exact (hlower x hx).1
  · intro x hx
    rcases List.mem_append.mp hx with hx | hx
    · exact hupper' x hx
    · exact (hlower' x hx).1
  · intro hlink
    obtain ⟨rfl, rfl⟩ := hstay (hlink.num_le hfdb ha)
    have hmet : last = last' :=
      (hlast.total hlink hfdb ha (by omega)).eq_of_num hfdb hlastMem (by omega)
    exact (hmeet hmet).2
  · intro hlink
    obtain ⟨rfl, rfl⟩ := hstay' (hlink.num_le hfdb hb)
    have hmet : last' = last :=
      (hlast'.total hlink hfdb hb (by omega)).eq_of_num hfdb hlastMem' (by omega)
    exact (hmeet hmet.symm).1
  · intro hunlinked hunlinked' x hx y hy hxy
    have hheight := ForkItem.num_eq_of_id_eq hxy
    rcases le_total b.num a.num with hle | hle
    · obtain ⟨rfl, rfl⟩ := hstay hle
      have hy' := (hlower' y hy).2
      rcases List.mem_append.mp hx with hx | hx
      · have hx' := habove x hx
        omega
      · refine happart ?_ x hx y hy hxy
        rintro rfl
        exact hunlinked hlast
    · obtain ⟨rfl, rfl⟩ := hstay' hle
      have hx' := (hlower x hx).2
      rcases List.mem_append.mp hy with hy | hy
      · have hy' := habove' y hy
        omega
      · refine happart ?_ x hx y hy hxy
        rintro rfl
        exact hunlinked' hlast'

/-- In every fork database in use, between two indexed items that are linked to a common
ancestor, the branches are found. -/
theorem Used.fetchBranchFrom_branches {family : Set (ForkItem T)} {fdb : ForkDatabase T}
    (h : Used family fdb) {a b ancestor : ForkItem T} (ha : a ∈ fdb.index) (hb : b ∈ fdb.index)
    (hfirst : fdb.Linked a ancestor) (hsecond : fdb.Linked b ancestor) :
    ∃ first second, fdb.fetchBranchFrom a.id b.id = .ok (first, second) ∧
      fdb.Branches a b first second := by
  obtain ⟨items, -, hfdb⟩ := h.consistent
  exact hfdb.branches ha hb hfirst hsecond

/-- Where the pointers form a tree, the branches between two items with a common ancestor are found,
and part from one block. -/
theorem Consistent.fetchBranchFrom_parts (hfdb : fdb.Consistent family) (ha : a ∈ fdb.index)
    (hb : b ∈ fdb.index) (hfirst : fdb.Linked a ancestor) (hsecond : fdb.Linked b ancestor) :
    ∃ first second last last', fdb.fetchBranchFrom a.id b.id = .ok (first, second) ∧
      fdb.Branches a b first second ∧ first.getLast? = some last ∧ second.getLast? = some last' ∧
        last.data.previous = last'.data.previous := by
  obtain ⟨first, second, hfetch, hbranches⟩ := hfdb.branches ha hb hfirst hsecond
  obtain ⟨fetched⟩ := fetchBranchFrom_spec hfdb hfetch
  have hlast := (congrArg List.getLast? fetched.firstEq).trans List.getLast?_concat
  have hlast' := (congrArg List.getLast? fetched.secondEq).trans List.getLast?_concat
  exact ⟨first, second, _, _, hfetch, hbranches, hlast, hlast', fetched.joined⟩

end Walks

end ForkDatabase

namespace Sample

def trunk : SignedBlock Unit := ⟨.zero, { timestamp := 3, witness := "alice" }, ()⟩
def leftLeaf : SignedBlock Unit := ⟨trunk.id, { timestamp := 6, witness := "alice" }, ()⟩
def rightLeaf : SignedBlock Unit := ⟨trunk.id, { timestamp := 9, witness := "bob" }, ()⟩

def trunkItem : ForkItem Unit := { ref := 0, data := trunk }
def leftItem : ForkItem Unit := { ref := 1, prev := some 0, data := leftLeaf }
def rightItem : ForkItem Unit := { ref := 2, prev := some 0, data := rightLeaf }

/-- Two blocks on top of one. -/
def forked : ForkDatabase Unit :=
  { index := [trunkItem, leftItem, rightItem], head := some leftItem, nextRef := 3 }

theorem forked_used : ∃ family, ForkDatabase.Used family forked :=
  ⟨_, .pushBlock (b := rightLeaf) (.pushBlock (b := leftLeaf) (.startBlock trunk .opened) rfl) rfl⟩

theorem forked_branches : ∃ first second,
    forked.fetchBranchFrom leftItem.id rightItem.id = .ok (first, second) ∧
      forked.Branches leftItem rightItem first second := by
  obtain ⟨family, hused⟩ := forked_used
  have hleft : forked.Linked leftItem trunkItem := .single ⟨by decide, rfl⟩
  have hright : forked.Linked rightItem trunkItem := .single ⟨by decide, rfl⟩
  exact ForkDatabase.Used.fetchBranchFrom_branches hused (by decide) (by decide) hleft hright

/-- The branches between the two leaves part from the trunk. -/
theorem forked_parts : ∃ first second last last',
    forked.fetchBranchFrom leftItem.id rightItem.id = .ok (first, second) ∧
      forked.Branches leftItem rightItem first second ∧ first.getLast? = some last ∧
        second.getLast? = some last' ∧ last.data.previous = last'.data.previous := by
  obtain ⟨family, hused⟩ := forked_used
  obtain ⟨items, -, hconsistent⟩ := hused.consistent
  have hleft : forked.Linked leftItem trunkItem := .single ⟨by decide, rfl⟩
  have hright : forked.Linked rightItem trunkItem := .single ⟨by decide, rfl⟩
  exact hconsistent.fetchBranchFrom_parts (by decide) (by decide) hleft hright

end Sample

end Blurt
