import Blurt.ForkChain.ForkDatabase
import Mathlib.Data.List.Chain
import Mathlib.Data.List.Nodup
import Mathlib.Data.Set.Insert

/-! # Laws of the fork database

The items ever allocated form a family: references are unique, and the parent
pointer of an item leads to an item of the previous block. A fork database is
consistent with a family when it holds items of the family only. Along parent
pointers the ids are those of the chain below the first item.
-/

namespace Blurt

variable {T : Type}

/-- `item.Follows parent`: the weak pointer of `item` refers to `parent`. -/
def ForkItem.Follows (item parent : ForkItem T) : Prop := item.prev = some parent.ref

namespace ForkDatabase

/-- A branch of items, newest first, each followed by its parent. -/
abbrev Branch (items : List (ForkItem T)) : Prop := items.IsChain ForkItem.Follows

structure Consistent (family : Set (ForkItem T)) (fdb : ForkDatabase T) : Prop where
  live : ∀ item ∈ fdb.live, item ∈ family
  fresh : ∀ item ∈ family, item.ref < fdb.nextRef
  unique : ∀ x ∈ family, ∀ y ∈ family, x.ref = y.ref → x = y
  parent : ∀ x ∈ family, ∀ ref, x.prev = some ref →
    ∃ y ∈ family, y.ref = ref ∧ y.id = x.data.previous
  valid : ∀ x ∈ family, x.invalid = false
  nodup : (fdb.index.map ForkItem.id).Nodup

section Find

variable {fdb : ForkDatabase T} {id : BlockId} {item : ForkItem T}

theorem find_spec (h : fdb.find id = some item) : item ∈ fdb.index ∧ item.id = id := by
  have hid := List.find?_some h
  exact ⟨List.mem_of_find?_eq_some h, by simpa using hid⟩

theorem find_eq_none : fdb.find id = none ↔ ∀ item ∈ fdb.index, item.id ≠ id := by
  simp [find, List.find?_eq_none]

theorem find_isSome (h : item ∈ fdb.index) : (fdb.find item.id).isSome := by
  rw [Option.isSome_iff_ne_none, ne_eq, find_eq_none]
  intro hnone
  exact hnone item h rfl

@[simp] theorem mem_live : item ∈ fdb.live ↔ item ∈ fdb.index ∨ fdb.head = some item := by
  simp [live]

end Find

section Links

variable {family : Set (ForkItem T)} {fdb : ForkDatabase T}

namespace Consistent

theorem index (h : fdb.Consistent family) {item : ForkItem T} (hitem : item ∈ fdb.index) :
    item ∈ family :=
  h.live item (mem_live.mpr (Or.inl hitem))

theorem head (h : fdb.Consistent family) {item : ForkItem T} (hitem : fdb.head = some item) :
    item ∈ family :=
  h.live item (mem_live.mpr (Or.inr hitem))

theorem eq_of_id_eq (h : fdb.Consistent family) {x y : ForkItem T} (hx : x ∈ fdb.index)
    (hy : y ∈ fdb.index) (hid : x.id = y.id) : x = y :=
  List.inj_on_of_nodup_map h.nodup hx hy hid

theorem find_eq (h : fdb.Consistent family) {item : ForkItem T} (hitem : item ∈ fdb.index) :
    fdb.find item.id = some item := by
  obtain ⟨found, hfound⟩ := Option.isSome_iff_exists.mp (find_isSome hitem)
  obtain ⟨hmem, hid⟩ := find_spec hfound
  rw [hfound, h.eq_of_id_eq hmem hitem hid]

theorem follows_id (h : fdb.Consistent family) {x y : ForkItem T} (hx : x ∈ family)
    (hy : y ∈ family) (hfollows : x.Follows y) : y.id = x.id.previous := by
  obtain ⟨z, hz, href, hid⟩ := h.parent x hx y.ref hfollows
  rw [← h.unique z hz y hy href, hid]
  rfl

theorem follows_num (h : fdb.Consistent family) {x y : ForkItem T} (hx : x ∈ family)
    (hy : y ∈ family) (hfollows : x.Follows y) : y.num + 1 = x.num := by
  have hid := congrArg BlockId.num (h.follows_id hx hy hfollows)
  rw [ForkItem.num_id, BlockId.num_previous, ForkItem.num_id] at hid
  have hpos : 0 < x.num := Nat.succ_pos _
  omega

theorem follows_unique (h : fdb.Consistent family) {x y z : ForkItem T} (hy : y ∈ family)
    (hz : z ∈ family) (hxy : x.Follows y) (hxz : x.Follows z) : y = z :=
  h.unique y hy z hz (Option.some.inj (hxy.symm.trans hxz))

/-- Locking a parent pointer finds the parent while something keeps it alive. -/
theorem lock_eq_some (h : fdb.Consistent family) {held : List (ForkItem T)}
    (hheld : ∀ item ∈ held, item ∈ family) {item parent : ForkItem T} :
    fdb.lock held item.prev = some parent ↔
      (parent ∈ fdb.live ∨ parent ∈ held) ∧ item.Follows parent := by
  have hfamily : ∀ x ∈ fdb.live ++ held, x ∈ family := by
    intro x hx
    rcases List.mem_append.mp hx with hx | hx
    · exact h.live x hx
    · exact hheld x hx
  rw [← List.mem_append, ForkItem.Follows]
  constructor
  · intro hlock
    obtain ⟨ref, href, hfind⟩ := Option.bind_eq_some_iff.mp hlock
    have hsome := List.find?_some hfind
    refine ⟨List.mem_of_find?_eq_some hfind, ?_⟩
    rw [href, (by simpa using hsome : parent.ref = ref)]
  · rintro ⟨hmem, hprev⟩
    rw [lock, hprev, Option.bind_some]
    have hexists : ((fdb.live ++ held).find? (fun x => x.ref == parent.ref)).isSome := by
      rw [List.find?_isSome]
      exact ⟨parent, hmem, by simp⟩
    obtain ⟨found, hfound⟩ := Option.isSome_iff_exists.mp hexists
    have href := List.find?_some hfound
    rw [hfound, h.unique found (hfamily _ (List.mem_of_find?_eq_some hfound)) parent
      (hfamily _ hmem) (by simpa using href)]

/-- Along a branch the ids are those of the chain below its first item. -/
theorem branch_get (h : fdb.Consistent family) {branch : List (ForkItem T)}
    (hbranch : Branch branch) (hfamily : ∀ item ∈ branch, item ∈ family)
    {first item : ForkItem T} (hfirst : branch.head? = some first) {i : Nat}
    (hitem : branch[i]? = some item) :
    item.id = BlockId.previous^[i] first.id ∧ item.num + i = first.num := by
  induction branch generalizing first i with
  | nil => simp at hfirst
  | cons x rest ih =>
      cases hfirst
      cases i with
      | zero =>
          cases hitem
          exact ⟨rfl, rfl⟩
      | succ i =>
          cases rest with
          | nil => simp at hitem
          | cons y rest =>
              obtain ⟨hfollows, hrest⟩ := List.isChain_cons_cons.mp hbranch
              have hid := h.follows_id (hfamily x (by simp)) (hfamily y (by simp)) hfollows
              have hnum := h.follows_num (hfamily x (by simp)) (hfamily y (by simp)) hfollows
              obtain ⟨hid', hnum'⟩ := ih hrest
                (fun z hz => hfamily z (List.mem_cons_of_mem x hz)) rfl (by simpa using hitem)
              rw [hid] at hid'
              exact ⟨hid', by omega⟩

theorem branch_getLast (h : fdb.Consistent family) {branch : List (ForkItem T)}
    (hbranch : Branch branch) (hfamily : ∀ item ∈ branch, item ∈ family)
    {first last : ForkItem T} (hfirst : branch.head? = some first)
    (hlast : branch.getLast? = some last) :
    last.data.previous = BlockId.previous^[branch.length] first.id ∧
      last.num + branch.length = first.num + 1 := by
  have hlength : 0 < branch.length := by
    rw [List.length_pos_iff]
    rintro rfl
    simp at hfirst
  rw [List.getLast?_eq_getElem?] at hlast
  obtain ⟨hid, hnum⟩ := h.branch_get hbranch hfamily hfirst hlast
  have hprevious := congrArg BlockId.previous hid
  rw [← Function.iterate_succ_apply' BlockId.previous, Nat.succ_eq_add_one,
    Nat.sub_add_cancel hlength] at hprevious
  exact ⟨hprevious, by omega⟩

end Consistent

end Links

section FetchBranch

variable {family : Set (ForkItem T)} {fdb : ForkDatabase T}

/-- `branch` runs from `item` down to `last` inside the fork database. -/
structure Descent (fdb : ForkDatabase T) (item : ForkItem T) (branch : List (ForkItem T))
    (last : ForkItem T) : Prop where
  chained : Branch (branch ++ [last])
  first : (branch ++ [last]).head? = some item
  live : ∀ x ∈ branch ++ [last], x ∈ fdb.live

theorem Descent.nil {item : ForkItem T} (hitem : item ∈ fdb.live) : fdb.Descent item [] item :=
  ⟨.singleton _, rfl, by simpa using hitem⟩

theorem Descent.cons {item parent last : ForkItem T} {branch : List (ForkItem T)}
    (hitem : item ∈ fdb.live) (hfollows : item.Follows parent)
    (h : fdb.Descent parent branch last) : fdb.Descent item (item :: branch) last := by
  refine ⟨?_, rfl, ?_⟩
  · obtain ⟨x, rest, hsplit⟩ := List.exists_cons_of_ne_nil
      (show branch ++ [last] ≠ [] by simp)
    have hfirst := h.first
    have hchained := h.chained
    rw [List.cons_append, hsplit]
    rw [hsplit] at hfirst hchained
    cases hfirst
    exact List.isChain_cons_cons.mpr ⟨hfollows, hchained⟩
  · simpa using ⟨by simpa using hitem, by simpa using h.live⟩

theorem Descent.append {item middle last : ForkItem T} {upper lower : List (ForkItem T)}
    (hupper : fdb.Descent item upper middle) (hlower : fdb.Descent middle lower last) :
    fdb.Descent item (upper ++ lower) last := by
  obtain ⟨x, rest, hsplit⟩ := List.exists_cons_of_ne_nil (show lower ++ [last] ≠ [] by simp)
  have hfirst := hlower.first
  have hchained := hlower.chained
  have hlive := hlower.live
  rw [hsplit] at hfirst hchained hlive
  cases hfirst
  refine ⟨?_, ?_, ?_⟩
  · rw [List.append_assoc, hsplit]
    exact List.isChain_split.mpr ⟨hupper.chained, hchained⟩
  · have hfirst := hupper.first
    rw [List.append_assoc, hsplit]
    cases upper with
    | nil => simpa using hfirst
    | cons y rest => simpa using hfirst
  · rw [List.append_assoc, hsplit]
    intro y hy
    rcases List.mem_append.mp hy with hy | hy
    · exact hupper.live y (List.mem_append_left _ hy)
    · exact hlive y hy

theorem walkDown_spec (h : fdb.Consistent family) {height fuel : Nat} {item last : ForkItem T}
    {branch : List (ForkItem T)} (hitem : item ∈ fdb.live)
    (hwalk : fdb.walkDown height fuel item = .ok (branch, last)) :
    fdb.Descent item branch last ∧ last.num ≤ height ∧ ∀ x ∈ branch, height < x.num := by
  induction fuel generalizing item branch with
  | zero =>
      unfold walkDown at hwalk
      split at hwalk
      next hle =>
        cases hwalk
        exact ⟨.nil hitem, hle, by simp⟩
      next => simp at hwalk
  | succ fuel ih =>
      unfold walkDown at hwalk
      split at hwalk
      next hle =>
        cases hwalk
        exact ⟨.nil hitem, hle, by simp⟩
      next hgt =>
        cases hlock : fdb.lock [] item.prev with
        | none => simp [hlock] at hwalk
        | some parent =>
            obtain ⟨hparent, hfollows⟩ := (h.lock_eq_some (by simp)).mp hlock
            have hparent : parent ∈ fdb.live := by simpa using hparent
            simp only [hlock] at hwalk
            cases hrest : fdb.walkDown height fuel parent with
            | error message => simp [hrest] at hwalk
            | ok result =>
                simp only [hrest, Except.ok.injEq, Prod.mk.injEq] at hwalk
                obtain ⟨rfl, rfl⟩ := hwalk
                obtain ⟨hdescent, hle, habove⟩ := ih hparent hrest
                refine ⟨hdescent.cons hitem hfollows, hle, ?_⟩
                simpa using ⟨not_le.mp hgt, habove⟩

theorem walkTogether_spec (h : fdb.Consistent family) {fuel : Nat}
    {first second : ForkItem T} {firstBranch secondBranch : List (ForkItem T)}
    (hfirst : first ∈ fdb.live) (hsecond : second ∈ fdb.live)
    (hwalk : fdb.walkTogether fuel first second = .ok (firstBranch, secondBranch)) :
    ∃ firstUpper firstLast secondUpper secondLast,
      firstBranch = firstUpper ++ [firstLast] ∧ secondBranch = secondUpper ++ [secondLast] ∧
      fdb.Descent first firstUpper firstLast ∧ fdb.Descent second secondUpper secondLast ∧
      firstLast.data.previous = secondLast.data.previous ∧
      List.Forall₂ (fun x y => x.data.previous ≠ y.data.previous) firstUpper secondUpper := by
  induction fuel generalizing first second firstBranch secondBranch with
  | zero =>
      unfold walkTogether at hwalk
      split at hwalk
      next heq =>
        cases hwalk
        exact ⟨[], first, [], second, rfl, rfl, .nil hfirst, .nil hsecond, heq, .nil⟩
      next => simp at hwalk
  | succ fuel ih =>
      unfold walkTogether at hwalk
      split at hwalk
      next heq =>
        cases hwalk
        exact ⟨[], first, [], second, rfl, rfl, .nil hfirst, .nil hsecond, heq, .nil⟩
      next hne =>
        cases hlock : fdb.lock [] first.prev with
        | none => simp [hlock] at hwalk
        | some firstParent =>
            cases hlock' : fdb.lock [] second.prev with
            | none => simp [hlock, hlock'] at hwalk
            | some secondParent =>
                obtain ⟨hmem, hfollows⟩ := (h.lock_eq_some (by simp)).mp hlock
                obtain ⟨hmem', hfollows'⟩ := (h.lock_eq_some (by simp)).mp hlock'
                simp only [hlock, hlock'] at hwalk
                cases hrest : fdb.walkTogether fuel firstParent secondParent with
                | error message => simp [hrest] at hwalk
                | ok result =>
                    simp only [hrest, Except.ok.injEq, Prod.mk.injEq] at hwalk
                    obtain ⟨rfl, rfl⟩ := hwalk
                    obtain ⟨upper, last, upper', last', hsplit, hsplit', hdescent, hdescent',
                      hsame, happart⟩ := ih (by simpa using hmem) (by simpa using hmem') hrest
                    exact ⟨first :: upper, last, second :: upper', last', by rw [hsplit]; rfl,
                      by rw [hsplit']; rfl, hdescent.cons hfirst hfollows,
                      hdescent'.cons hsecond hfollows', hsame, .cons hne happart⟩

namespace Descent

variable {item last : ForkItem T} {branch : List (ForkItem T)}

theorem mem_family (h : fdb.Consistent family) (hdescent : fdb.Descent item branch last) :
    ∀ x ∈ branch ++ [last], x ∈ family :=
  fun x hx => h.live x (hdescent.live x hx)

theorem get (h : fdb.Consistent family) (hdescent : fdb.Descent item branch last) {i : Nat}
    {x : ForkItem T} (hx : (branch ++ [last])[i]? = some x) :
    x.id = BlockId.previous^[i] item.id ∧ x.num + i = item.num :=
  h.branch_get hdescent.chained (hdescent.mem_family h) hdescent.first hx

theorem previous_last (h : fdb.Consistent family) (hdescent : fdb.Descent item branch last) :
    last.data.previous = BlockId.previous^[branch.length + 1] item.id ∧
      last.num + branch.length = item.num := by
  have hlast := h.branch_getLast hdescent.chained (hdescent.mem_family h) hdescent.first
    (List.getLast?_concat)
  rw [List.length_append, List.length_singleton] at hlast
  exact ⟨hlast.1, by omega⟩

end Descent

/-- Two branches of one length that part above their last previous block share
no block at one height, unless each is a single item. -/
theorem apart_of_diverge (h : fdb.Consistent family)
    {first second firstLast secondLast : ForkItem T} {firstUpper secondUpper : List (ForkItem T)}
    (hfirst : fdb.Descent first firstUpper firstLast)
    (hsecond : fdb.Descent second secondUpper secondLast)
    (hdiverge : List.Forall₂ (fun x y => x.data.previous ≠ y.data.previous) firstUpper secondUpper)
    {i : Nat} {x y : ForkItem T} (hx : (firstUpper ++ [firstLast])[i]? = some x)
    (hy : (secondUpper ++ [secondLast])[i]? = some y) (hid : x.id = y.id) : secondUpper = [] := by
  by_contra hne
  have hlength := hdiverge.length_eq
  have hpos := List.length_pos_iff.mpr hne
  have hbelow : ∀ k (hk : k < firstUpper.length) (hk' : k < secondUpper.length),
      BlockId.previous^[k + 1] first.id ≠ BlockId.previous^[k + 1] second.id := by
    intro k hk hk' heq
    have hu := (hfirst.get h (x := firstUpper[k]) (i := k)
      (by rw [List.getElem?_append_left hk, List.getElem?_eq_getElem hk])).1
    have hv := (hsecond.get h (x := secondUpper[k]) (i := k)
      (by rw [List.getElem?_append_left hk', List.getElem?_eq_getElem hk'])).1
    rw [Function.iterate_succ_apply', Function.iterate_succ_apply', ← hu, ← hv] at heq
    exact (List.forall₂_iff_get.mp hdiverge).2 k hk hk' heq
  have hi := (List.getElem?_eq_some_iff.mp hx).1
  rw [List.length_append, List.length_singleton] at hi
  rw [(hfirst.get h hx).1, (hsecond.get h hy).1] at hid
  cases i with
  | zero =>
      refine hbelow 0 (by omega) hpos ?_
      exact congrArg BlockId.previous hid
  | succ i => exact hbelow i (by omega) (by omega) hid

/-- The result of `fetch_branch_from`: two branches of live items that end in
items with one previous block. -/
structure Fetched (fdb : ForkDatabase T) (first second : BlockId)
    (firstBranch secondBranch : List (ForkItem T)) where
  firstItem : ForkItem T
  secondItem : ForkItem T
  firstLast : ForkItem T
  secondLast : ForkItem T
  firstUpper : List (ForkItem T)
  secondUpper : List (ForkItem T)
  firstFound : fdb.find first = some firstItem
  secondFound : fdb.find second = some secondItem
  firstEq : firstBranch = firstUpper ++ [firstLast]
  secondEq : secondBranch = secondUpper ++ [secondLast]
  firstDescent : fdb.Descent firstItem firstUpper firstLast
  secondDescent : fdb.Descent secondItem secondUpper secondLast
  joined : firstLast.data.previous = secondLast.data.previous
  apart : secondItem.num < firstItem.num →
    ∀ x ∈ firstBranch, ∀ y ∈ secondBranch, x.id = y.id → secondUpper = []

theorem fetchBranchFrom_spec (h : fdb.Consistent family) {first second : BlockId}
    {firstBranch secondBranch : List (ForkItem T)}
    (hfetch : fdb.fetchBranchFrom first second = .ok (firstBranch, secondBranch)) :
    Nonempty (fdb.Fetched first second firstBranch secondBranch) := by
  simp only [fetchBranchFrom, Outcome.bind_eq_ok, Outcome.require_eq_ok, Outcome.pure_eq_ok] at hfetch
  obtain ⟨x, hx, y, hy, ⟨upper, xl⟩, hdown, ⟨upper', yl⟩, hdown', ⟨lower, lower'⟩, htogether,
    heq⟩ := hfetch
  dsimp only at hdown' htogether heq
  obtain ⟨rfl, rfl⟩ := Prod.mk.inj heq
  obtain ⟨hdescent, hle, habove⟩ :=
    walkDown_spec h (mem_live.mpr (Or.inl (find_spec hx).1)) hdown
  obtain ⟨hdescent', hle', habove'⟩ :=
    walkDown_spec h (mem_live.mpr (Or.inl (find_spec hy).1)) hdown'
  obtain ⟨u, l, u', l', rfl, rfl, hlower, hlower', hjoined, hdiverge⟩ :=
    walkTogether_spec h (hdescent.live xl (by simp)) (hdescent'.live yl (by simp)) htogether
  refine ⟨{
    firstItem := x, secondItem := y, firstLast := l, secondLast := l'
    firstUpper := upper ++ u, secondUpper := upper' ++ u'
    firstFound := hx, secondFound := hy
    firstEq := (List.append_assoc _ _ _).symm, secondEq := (List.append_assoc _ _ _).symm
    firstDescent := hdescent.append hlower, secondDescent := hdescent'.append hlower'
    joined := hjoined
    apart := ?_ }⟩
  intro hnum p hp q hq hid
  -- The first walk stops at the height of the second item, so the second walk does not move.
  have hxl := (hdescent.previous_last h).2
  have hreach : xl.num = y.num := by
    obtain rfl | ⟨front, z, rfl⟩ := List.eq_nil_or_concat upper
    · have hxl : xl.num + 0 = x.num := hxl
      omega
    · have hz := (hdescent.get h (i := front.length) (x := z) (by simp)).2
      have hzabove := habove z (by simp)
      rw [List.length_concat] at hxl
      omega
  have hnil : upper' = [] := by
    cases upper' with
    | nil => rfl
    | cons z rest =>
        have hz := (hdescent'.get h (i := 0) (x := z) (by simp)).2
        have hzabove := habove' z (by simp)
        omega
  subst hnil
  have hyl : yl = y := by simpa using hdescent'.first
  subst hyl
  simp only [List.nil_append] at hq ⊢
  obtain ⟨j, hj⟩ := List.getElem?_of_mem hq
  obtain ⟨i, hi⟩ := List.getElem?_of_mem hp
  have hpnum := ((hdescent.append hlower).get h (by simpa using hi)).2
  have hqnum := (hlower'.get h hj).2
  have hsame := ForkItem.num_eq_of_id_eq hid
  have hindex : i = upper.length + j := by omega
  subst hindex
  rw [List.getElem?_append_right (by omega), Nat.add_sub_cancel_left] at hi
  exact apart_of_diverge h hlower hlower' hdiverge hi hj hid

/-- While the items above a height are linked inside the index, the walk reaches it. -/
theorem walkDown_isOk (h : fdb.Consistent family) {top : BlockId} {height : Nat}
    (hlinked : ∀ x ∈ fdb.index, top.Descends x.id → height < x.num →
      ∃ parent ∈ fdb.index, x.Follows parent)
    {fuel : Nat} {item : ForkItem T} (hitem : item ∈ fdb.index) (hbelow : top.Descends item.id)
    (hfuel : item.num ≤ fuel) (hheight : height ≤ item.num) :
    ∃ branch last, fdb.walkDown height fuel item = .ok (branch, last) ∧ last ∈ fdb.index ∧
      top.Descends last.id ∧ last.num = height := by
  induction fuel generalizing item with
  | zero =>
      have hpos : 0 < item.num := Nat.succ_pos _
      omega
  | succ fuel ih =>
      unfold walkDown
      by_cases hle : item.num ≤ height
      · rw [if_pos hle]
        exact ⟨[], item, rfl, hitem, hbelow, by omega⟩
      · obtain ⟨parent, hparent, hfollows⟩ := hlinked item hitem hbelow (by omega)
        have hlock := (h.lock_eq_some (show ∀ x ∈ ([] : List (ForkItem T)), x ∈ family by simp)).mpr
          ⟨Or.inl (mem_live.mpr (Or.inl hparent)), hfollows⟩
        have hid := h.follows_id (h.index hitem) (h.index hparent) hfollows
        have hnum := h.follows_num (h.index hitem) (h.index hparent) hfollows
        have hparentBelow : top.Descends parent.id := by
          rw [hid]
          exact hbelow.trans (BlockId.descends_iterate item.id 1)
        obtain ⟨branch, last, hwalk, hlast⟩ := ih hparent hparentBelow (by omega) (by omega)
        rw [if_neg hle]
        simp only [hlock, hwalk]
        exact ⟨item :: branch, last, rfl, hlast⟩

/-- Two linked items of one height above a common ancestor are walked down to items
above it that have one previous block. -/
theorem walkTogether_isOk (h : fdb.Consistent family) {top top' ancestor : BlockId}
    (hlinked : ∀ x ∈ fdb.index, top.Descends x.id ∨ top'.Descends x.id →
      ancestor.num + 1 < x.num → ∃ parent ∈ fdb.index, x.Follows parent)
    {fuel : Nat} {first second : ForkItem T} (hfirst : first ∈ fdb.index)
    (hsecond : second ∈ fdb.index) (hfirstTop : top.Descends first.id)
    (hsecondTop : top'.Descends second.id) (hfirstJoin : first.id.Descends ancestor)
    (hsecondJoin : second.id.Descends ancestor) (habove : ancestor.num < first.num)
    (hnum : second.num = first.num) (hfuel : first.num ≤ fuel) :
    ∃ branch branch', fdb.walkTogether fuel first second = .ok (branch, branch') ∧
      (∀ x ∈ branch, ancestor.num < x.num) ∧ ∀ x ∈ branch', ancestor.num < x.num := by
  induction fuel generalizing first second with
  | zero =>
      have hpos : 0 < first.num := Nat.succ_pos _
      omega
  | succ fuel ih =>
      unfold walkTogether
      by_cases hsame : first.data.previous = second.data.previous
      · rw [if_pos hsame]
        exact ⟨[first], [second], rfl, by simpa using habove, by simp; omega⟩
      · -- A previous block at the height of the ancestor is the ancestor.
        have hpreviousNum : ∀ x : ForkItem T, x.data.previous.num + 1 = x.num := fun x => rfl
        have hbelow : ∀ x : ForkItem T, x.id.Descends ancestor → ancestor.num < x.num →
            x.data.previous.Descends ancestor := by
          intro x hx hlt
          refine BlockId.Descends.of_hash
            (show (BlockId.hash x.data.previous x.data.header).Descends ancestor from hx) ?_
          have := hpreviousNum x
          omega
        have hfirstBelow := hbelow first hfirstJoin habove
        have hsecondBelow := hbelow second hsecondJoin (by omega)
        have hhigh : ancestor.num + 1 < first.num := by
          by_contra hle
          have hfirstNum := hpreviousNum first
          have hsecondNum := hpreviousNum second
          exact hsame ((hfirstBelow.eq_of_num_le (by omega)).symm.trans
            (hsecondBelow.eq_of_num_le (by omega)))
        obtain ⟨parent, hparent, hfollows⟩ := hlinked first hfirst (Or.inl hfirstTop) hhigh
        obtain ⟨parent', hparent', hfollows'⟩ := hlinked second hsecond (Or.inr hsecondTop)
          (by omega)
        have hheld : ∀ x ∈ ([] : List (ForkItem T)), x ∈ family := by simp
        have hlock := (h.lock_eq_some hheld).mpr
          ⟨Or.inl (mem_live.mpr (Or.inl hparent)), hfollows⟩
        have hlock' := (h.lock_eq_some hheld).mpr
          ⟨Or.inl (mem_live.mpr (Or.inl hparent')), hfollows'⟩
        have hid : parent.id = first.data.previous :=
          h.follows_id (h.index hfirst) (h.index hparent) hfollows
        have hid' : parent'.id = second.data.previous :=
          h.follows_id (h.index hsecond) (h.index hparent') hfollows'
        have hparentNum := h.follows_num (h.index hfirst) (h.index hparent) hfollows
        have hparentNum' := h.follows_num (h.index hsecond) (h.index hparent') hfollows'
        obtain ⟨branch, branch', hwalk, hupper, hupper'⟩ := ih hparent hparent'
          (by
            rw [hid]
            exact hfirstTop.trans (BlockId.descends_iterate first.id 1))
          (by
            rw [hid']
            exact hsecondTop.trans (BlockId.descends_iterate second.id 1))
          (by rwa [hid]) (by rwa [hid']) (by omega) (by omega) (by omega)
        rw [if_neg hsame]
        simp only [hlock, hlock', hwalk]
        refine ⟨first :: branch, second :: branch', rfl, ?_, ?_⟩
        · exact List.forall_mem_cons.mpr ⟨habove, hupper⟩
        · exact List.forall_mem_cons.mpr ⟨by omega, hupper'⟩

/-- Two indexed blocks that are linked inside the index down to a common ancestor
have branches, which stay above the ancestor. -/
theorem fetchBranchFrom_isOk (h : fdb.Consistent family) {first second ancestor : BlockId}
    {firstItem secondItem : ForkItem T} (hfirst : firstItem ∈ fdb.index)
    (hfirstId : firstItem.id = first) (hsecond : secondItem ∈ fdb.index)
    (hsecondId : secondItem.id = second) (hfirstJoin : first.Descends ancestor)
    (hsecondJoin : second.Descends ancestor) (habove : ancestor.num < second.num)
    (hhigher : second.num ≤ first.num)
    (hlinked : ∀ x ∈ fdb.index, first.Descends x.id ∨ second.Descends x.id →
      ancestor.num + 1 < x.num → ∃ parent ∈ fdb.index, x.Follows parent) :
    ∃ branch branch', fdb.fetchBranchFrom first second = .ok (branch, branch') ∧
      ∀ x ∈ branch', ancestor.num < x.num := by
  subst hfirstId hsecondId
  rw [ForkItem.num_id] at habove hhigher
  rw [ForkItem.num_id] at hhigher
  have hlinkedFirst : ∀ x ∈ fdb.index, firstItem.id.Descends x.id → secondItem.num < x.num →
      ∃ parent ∈ fdb.index, x.Follows parent :=
    fun x hx hx' hlt => hlinked x hx (Or.inl hx') (by omega)
  obtain ⟨upper, last, hdown, hlast, hlastTop, hlastNum⟩ :=
    walkDown_isOk h hlinkedFirst hfirst (.refl _) le_rfl hhigher
  have hstay : fdb.walkDown last.num secondItem.num secondItem = .ok ([], secondItem) := by
    unfold walkDown
    rw [if_pos (by omega)]
  have hlastJoin : last.id.Descends ancestor :=
    hlastTop.total hfirstJoin (by rw [ForkItem.num_id]; omega)
  obtain ⟨branch, branch', htogether, -, hupper⟩ := walkTogether_isOk h hlinked hlast hsecond
    hlastTop (.refl _) hlastJoin hsecondJoin (by omega) hlastNum.symm le_rfl
  refine ⟨upper ++ branch, branch', ?_, hupper⟩
  simp only [fetchBranchFrom, h.find_eq hfirst, h.find_eq hsecond, Outcome.require, hdown, hstay,
    htogether, Outcome.ok_bind]
  rfl

end FetchBranch

section Push

variable {family : Set (ForkItem T)} {fdb next : ForkDatabase T} {b : SignedBlock T}
  {item : ForkItem T}

@[simp] theorem insert_head (fdb : ForkDatabase T) (item : ForkItem T) :
    (fdb.insert item).head = fdb.head := by
  unfold insert
  split <;> rfl

@[simp] theorem insert_nextRef (fdb : ForkDatabase T) (item : ForkItem T) :
    (fdb.insert item).nextRef = fdb.nextRef := by
  unfold insert
  split <;> rfl

@[simp] theorem insert_maxSize (fdb : ForkDatabase T) (item : ForkItem T) :
    (fdb.insert item).maxSize = fdb.maxSize := by
  unfold insert
  split <;> rfl

theorem mem_insert {x : ForkItem T} : x ∈ (fdb.insert item).index ↔
    x ∈ fdb.index ∨ (x = item ∧ fdb.find item.id = none) := by
  unfold insert
  split
  next heq => simp [heq]
  next heq => simp [heq]

theorem nodup_insert (h : (fdb.index.map ForkItem.id).Nodup) :
    ((fdb.insert item).index.map ForkItem.id).Nodup := by
  unfold insert
  split
  · exact h
  next hnone =>
    have hfresh : item.id ∉ fdb.index.map ForkItem.id := by
      simpa using find_eq_none.mp hnone
    simp only [List.map_append, List.map_cons, List.map_nil]
    exact List.nodup_append.mpr ⟨h, by simp, by simpa using fun x hx => find_eq_none.mp hnone x hx⟩

/-- What a completed `push_block` did: `item` is the new item of the block. -/
structure Pushed (fdb : ForkDatabase T) (b : SignedBlock T) (item : ForkItem T)
    (next : ForkDatabase T) : Prop where
  ref : item.ref = fdb.nextRef
  data : item.data = b
  valid : item.invalid = false
  link : item.prev = none ∧ (fdb.head = none ∨ b.previous = .zero) ∨
    ∃ parent ∈ fdb.index, parent.id = b.previous ∧ item.Follows parent
  eq : next = { fdb with nextRef := fdb.nextRef + 1 : ForkDatabase T }.store item

theorem pushBlock_spec (h : fdb.pushBlock b = .ok next) : ∃ item, fdb.Pushed b item next := by
  simp only [pushBlock, _pushBlock] at h
  split at h
  next hhead => exact ⟨_, rfl, rfl, rfl, Or.inl ⟨rfl, Or.inl hhead⟩, (Except.ok.inj h).symm⟩
  next head hhead =>
    split at h
    · simp at h
    split at h
    next hzero => exact ⟨_, rfl, rfl, rfl, Or.inl ⟨rfl, Or.inr hzero⟩, (Except.ok.inj h).symm⟩
    next hlinked =>
      split at h
      · simp at h
      next parent hparent =>
        split at h
        · simp at h
        · obtain ⟨hmem, hid⟩ := find_spec hparent
          exact ⟨{ ref := fdb.nextRef, prev := some parent.ref, data := b }, rfl, rfl, rfl,
            Or.inr ⟨parent, hmem, hid, rfl⟩, (Except.ok.inj h).symm⟩

theorem pushBlock_of_empty (hhead : fdb.head = none) (b : SignedBlock T) :
    ∃ next, fdb.pushBlock b = .ok next := by
  simp only [pushBlock, _pushBlock, hhead]
  exact ⟨_, rfl⟩

theorem pushBlock_of_zero {head : ForkItem T} (hhead : fdb.head = some head)
    (hrecent : head.num < b.blockNum + fdb.maxSize) (hzero : b.previous = .zero) :
    ∃ next, fdb.pushBlock b = .ok next := by
  have hnum : ¬ (({ ref := fdb.nextRef, data := b } : ForkItem T).num : Int) ≤
      max 0 ((head.num : Int) - fdb.maxSize) := by
    have hpos : 0 < b.blockNum := Nat.succ_pos _
    change ¬ (b.blockNum : Int) ≤ _
    omega
  simp only [pushBlock, _pushBlock, hhead, if_neg hnum, if_pos hzero]
  exact ⟨_, rfl⟩

/-- A recent block with its parent in the index is always accepted. -/
theorem pushBlock_of_parent (h : fdb.Consistent family) {head parent : ForkItem T}
    (hhead : fdb.head = some head) (hnum : head.num < b.blockNum + fdb.maxSize)
    (hparent : parent ∈ fdb.index) (hid : parent.id = b.previous) :
    ∃ next, fdb.pushBlock b = .ok next := by
  have hfind : ({ fdb with nextRef := fdb.nextRef + 1 } : ForkDatabase T).find b.previous =
      some parent := by
    rw [← hid]
    exact h.find_eq hparent
  have hrecent : ¬ (({ ref := fdb.nextRef, data := b } : ForkItem T).num : Int) ≤
      max 0 ((head.num : Int) - fdb.maxSize) := by
    have hpos : 0 < b.blockNum := Nat.succ_pos _
    change ¬ (b.blockNum : Int) ≤ _
    omega
  have hvalid := h.valid parent (h.index hparent)
  simp only [pushBlock, _pushBlock, hhead, if_neg hrecent]
  split
  · exact ⟨_, rfl⟩
  · rw [hhead] at hfind
    simp only [hfind, hvalid]
    exact ⟨_, rfl⟩

namespace Pushed

theorem id_eq (h : fdb.Pushed b item next) : item.id = b.id := congrArg SignedBlock.id h.data

theorem mem_index (h : fdb.Pushed b item next) {x : ForkItem T} :
    x ∈ next.index ↔ x ∈ fdb.index ∨ (x = item ∧ ∀ y ∈ fdb.index, y.id ≠ b.id) := by
  rw [h.eq, ← h.id_eq]
  exact mem_insert.trans (or_congr_right (and_congr_right fun _ => find_eq_none))

theorem head_eq (h : fdb.Pushed b item next) :
    next.head = some item ∧ (∀ head, fdb.head = some head → head.num < item.num) ∨
      ∃ head, fdb.head = some head ∧ next.head = some head ∧ item.num ≤ head.num := by
  rw [h.eq]
  cases hhead : fdb.head with
  | none => exact Or.inl ⟨by simp [store], by simp⟩
  | some head =>
      by_cases hnum : head.num < item.num
      · exact Or.inl ⟨by simp [store, hnum], by simpa using hnum⟩
      · exact Or.inr ⟨head, rfl, by simp [store, hnum], not_lt.mp hnum⟩

theorem exists_head (h : fdb.Pushed b item next) : ∃ head, next.head = some head := by
  rcases h.head_eq with ⟨hhead, -⟩ | ⟨head, -, hhead, -⟩
  · exact ⟨item, hhead⟩
  · exact ⟨head, hhead⟩

theorem nextRef_eq (h : fdb.Pushed b item next) : next.nextRef = fdb.nextRef + 1 := by
  rw [h.eq]
  exact insert_nextRef _ _

theorem maxSize_eq (h : fdb.Pushed b item next) : next.maxSize = fdb.maxSize := by
  rw [h.eq]
  exact insert_maxSize _ _

/-- After a push the block is in the index, under this or an older item. -/
theorem stored (h : fdb.Pushed b item next) : ∃ x ∈ next.index, x.id = b.id := by
  by_cases hnew : ∀ y ∈ fdb.index, y.id ≠ b.id
  · exact ⟨item, h.mem_index.mpr (Or.inr ⟨rfl, hnew⟩), h.id_eq⟩
  · push Not at hnew
    obtain ⟨y, hy, hid⟩ := hnew
    exact ⟨y, h.mem_index.mpr (Or.inl hy), hid⟩

theorem consistent (h : fdb.Pushed b item next) (hfdb : fdb.Consistent family) :
    next.Consistent (Insert.insert item family) := by
  have hfresh : ∀ x ∈ family, x.ref ≠ item.ref := by
    intro x hx
    rw [h.ref]
    exact (hfdb.fresh x hx).ne
  constructor
  · intro x hx
    rcases mem_live.mp hx with hx | hx
    · rcases h.mem_index.mp hx with hx | ⟨rfl, -⟩
      · exact Or.inr (hfdb.index hx)
      · exact Or.inl rfl
    · rcases h.head_eq with ⟨hhead, -⟩ | ⟨head, hold, hhead, -⟩
      · exact Or.inl (Option.some.inj (hx.symm.trans hhead))
      · rw [Option.some.inj (hx.symm.trans hhead)]
        exact Or.inr (hfdb.head hold)
  · rw [h.nextRef_eq]
    rintro x (rfl | hx)
    · rw [h.ref]
      exact Nat.lt_succ_self _
    · exact (hfdb.fresh x hx).trans (Nat.lt_succ_self _)
  · rintro x (rfl | hx) y (rfl | hy) href
    · rfl
    · exact absurd href.symm (hfresh y hy)
    · exact absurd href (hfresh x hx)
    · exact hfdb.unique x hx y hy href
  · rintro x (rfl | hx) ref href
    · rcases h.link with ⟨hnone, -⟩ | ⟨parent, hparent, hid, hfollows⟩
      · simp [hnone] at href
      · refine ⟨parent, Or.inr (hfdb.index hparent), ?_, ?_⟩
        · exact Option.some.inj (hfollows.symm.trans href)
        · rw [hid, h.data]
    · obtain ⟨y, hy, hyref, hid⟩ := hfdb.parent x hx ref href
      exact ⟨y, Or.inr hy, hyref, hid⟩
  · rintro x (rfl | hx)
    · exact h.valid
    · exact hfdb.valid x hx
  · rw [h.eq]
    exact @nodup_insert T { fdb with nextRef := fdb.nextRef + 1 } item hfdb.nodup

end Pushed

end Push

section Trim

variable {family : Set (ForkItem T)} {fdb : ForkDatabase T} {item : ForkItem T}

/-- Operations that only drop items from the index or move the head within the
family keep the fork database consistent. -/
theorem Consistent.trim (h : fdb.Consistent family) {next : ForkDatabase T}
    (hindex : next.index.Sublist fdb.index) (hhead : ∀ item, next.head = some item → item ∈ family)
    (href : next.nextRef = fdb.nextRef) : next.Consistent family where
  live := by
    intro x hx
    rcases mem_live.mp hx with hx | hx
    · exact h.index (hindex.subset hx)
    · exact hhead x hx
  fresh := by
    rw [href]
    exact h.fresh
  unique := h.unique
  parent := h.parent
  valid := h.valid
  nodup := h.nodup.sublist (hindex.map _)

theorem Consistent.setHead (h : fdb.Consistent family) (hitem : item ∈ family) :
    (fdb.setHead item).Consistent family :=
  h.trim (List.Sublist.refl _) (fun _ heq => Option.some.inj heq ▸ hitem) rfl

theorem Consistent.remove (h : fdb.Consistent family) (id : BlockId) :
    (fdb.remove id).Consistent family :=
  h.trim List.filter_sublist (fun _ heq => h.head heq) rfl

@[simp] theorem setMaxSize_head (fdb : ForkDatabase T) (size : Nat) :
    (fdb.setMaxSize size).head = fdb.head := by
  unfold setMaxSize
  split <;> simp_all

@[simp] theorem setMaxSize_maxSize (fdb : ForkDatabase T) (size : Nat) :
    (fdb.setMaxSize size).maxSize = size := by
  unfold setMaxSize
  split <;> rfl

@[simp] theorem setMaxSize_nextRef (fdb : ForkDatabase T) (size : Nat) :
    (fdb.setMaxSize size).nextRef = fdb.nextRef := by
  unfold setMaxSize
  split <;> rfl

theorem mem_setMaxSize {size : Nat} {x : ForkItem T} : x ∈ (fdb.setMaxSize size).index ↔
    x ∈ fdb.index ∧ ∀ head, fdb.head = some head → head.num ≤ x.num + size := by
  unfold setMaxSize
  split
  next hnone => simp [hnone]
  next head hhead =>
    simp only [hhead, Option.some.injEq, forall_eq', List.mem_filter, Bool.not_eq_true',
      decide_eq_false_iff_not, not_lt]
    refine and_congr_right fun _ => ?_
    omega

theorem setMaxSize_sublist (fdb : ForkDatabase T) (size : Nat) :
    (fdb.setMaxSize size).index.Sublist fdb.index := by
  unfold setMaxSize
  split
  · exact List.Sublist.refl _
  · exact List.filter_sublist

theorem Consistent.setMaxSize (h : fdb.Consistent family) (size : Nat) :
    (fdb.setMaxSize size).Consistent family :=
  h.trim (setMaxSize_sublist fdb size) (fun item heq => h.head (by simpa using heq))
    (setMaxSize_nextRef fdb size)

theorem mem_remove {id : BlockId} {x : ForkItem T} :
    x ∈ (fdb.remove id).index ↔ x ∈ fdb.index ∧ x.id ≠ id := by
  simp [remove]

theorem popBlock_spec (h : fdb.Consistent family) {held : List (ForkItem T)}
    (hheld : ∀ x ∈ held, x ∈ family) {head : ForkItem T} (hhead : fdb.head = some head)
    {next : ForkDatabase T} : fdb.popBlock held = .ok next ↔
      ∃ parent, (parent ∈ fdb.live ∨ parent ∈ held) ∧ head.Follows parent ∧
        next = fdb.setHead parent := by
  simp only [popBlock, hhead]
  constructor
  · intro hpop
    split at hpop
    · simp at hpop
    next parent hlock =>
      obtain ⟨hmem, hfollows⟩ := (h.lock_eq_some hheld).mp hlock
      exact ⟨parent, hmem, hfollows, (Except.ok.inj hpop).symm⟩
  · rintro ⟨parent, hmem, hfollows, rfl⟩
    rw [(h.lock_eq_some hheld).mpr ⟨hmem, hfollows⟩]
    rfl

end Trim

section MainBranch

variable {family : Set (ForkItem T)} {fdb : ForkDatabase T}

theorem walkMainBranch_spec (h : fdb.Consistent family) {num fuel : Nat} {item found : ForkItem T}
    (hitem : item ∈ fdb.live) (hnum : num ≤ item.num)
    (hwalk : fdb.walkMainBranch num fuel item = some found) :
    found ∈ fdb.live ∧ found.num = num ∧ found.id = BlockId.previous^[item.num - num] item.id := by
  induction fuel generalizing item with
  | zero =>
      unfold walkMainBranch at hwalk
      split at hwalk
      next hle =>
        cases hwalk
        have heq : found.num = num := le_antisymm hle hnum
        exact ⟨hitem, heq, by rw [heq, Nat.sub_self]; rfl⟩
      next => simp at hwalk
  | succ fuel ih =>
      unfold walkMainBranch at hwalk
      split at hwalk
      next hle =>
        cases hwalk
        have heq : found.num = num := le_antisymm hle hnum
        exact ⟨hitem, heq, by rw [heq, Nat.sub_self]; rfl⟩
      next hgt =>
        cases hlock : fdb.lock [] item.prev with
        | none => simp [hlock] at hwalk
        | some parent =>
            obtain ⟨hparent, hfollows⟩ := (h.lock_eq_some (by simp)).mp hlock
            have hparent : parent ∈ fdb.live := by simpa using hparent
            have hid := h.follows_id (h.live item hitem) (h.live parent hparent) hfollows
            have hstep := h.follows_num (h.live item hitem) (h.live parent hparent) hfollows
            simp only [hlock] at hwalk
            obtain ⟨hmem, hfound, hfoundId⟩ := ih hparent (by omega) hwalk
            refine ⟨hmem, hfound, ?_⟩
            rw [hfoundId, hid, ← Function.iterate_succ_apply]
            congr 1
            omega

/-- A block fetched by number is the only indexed block of its number, or lies on
the branch of the head. -/
theorem fetchBlockOnMainBranchByNumber_spec (h : fdb.Consistent family) {num : Nat}
    {found : ForkItem T} (hfetch : fdb.fetchBlockOnMainBranchByNumber num = some found) :
    (∀ x ∈ fdb.index, x.num = num → x = found) ∨
      ∃ head x y, fdb.head = some head ∧ num ≤ head.num ∧ found ∈ fdb.live ∧ found.num = num ∧
        found.id = BlockId.previous^[head.num - num] head.id ∧
        x ∈ fdb.index ∧ x.num = num ∧ y ∈ fdb.index ∧ y.num = num ∧ x.id ≠ y.id := by
  have hmem : ∀ x, x ∈ fdb.fetchBlockByNumber num ↔ x ∈ fdb.index ∧ x.num = num := by
    intro x
    simp [fetchBlockByNumber]
  unfold fetchBlockOnMainBranchByNumber at hfetch
  split at hfetch
  · cases hfetch
  next item hsingle =>
    cases hfetch
    refine Or.inl ?_
    intro x hx hnum
    have hin := (hmem x).mpr ⟨hx, hnum⟩
    rw [hsingle] at hin
    exact List.mem_singleton.mp hin
  next hempty hmany =>
    refine Or.inr ?_
    have hnodup : (fdb.fetchBlockByNumber num).map ForkItem.id |>.Nodup :=
      h.nodup.sublist (List.filter_sublist.map _)
    cases hlist : fdb.fetchBlockByNumber num with
    | nil => exact absurd hlist hempty
    | cons x rest =>
        cases rest with
        | nil => exact absurd hlist (hmany x)
        | cons y rest =>
            rw [hlist] at hnodup
            have hx := (hmem x).mp (by rw [hlist]; simp)
            have hy := (hmem y).mp (by rw [hlist]; simp)
            have hne : x.id ≠ y.id := by
              intro heq
              simp [heq] at hnodup
            unfold walkMainBranchToNum at hfetch
            split at hfetch
            · cases hfetch
            next head hhead =>
              split at hfetch
              · cases hfetch
              next hlow =>
                obtain ⟨hfound, hfoundNum, hid⟩ := walkMainBranch_spec h
                  (mem_live.mpr (Or.inr hhead)) (not_lt.mp hlow) hfetch
                exact ⟨head, x, y, hhead, not_lt.mp hlow, hfound, hfoundNum, hid, hx.1, hx.2,
                  hy.1, hy.2, hne⟩

/-- A branch of live items lets the walk reach every height on it. -/
theorem walkMainBranch_isSome (h : fdb.Consistent family) {num fuel : Nat} {item : ForkItem T}
    {rest : List (ForkItem T)} (hitem : item ∈ fdb.live) (hbranch : Branch (item :: rest))
    (hlive : ∀ x ∈ rest, x ∈ fdb.live) (hfuel : item.num ≤ fuel)
    (hreach : item.num ≤ num + rest.length) : (fdb.walkMainBranch num fuel item).isSome := by
  induction fuel generalizing item rest with
  | zero =>
      have hpos : 0 < item.num := Nat.succ_pos _
      omega
  | succ fuel ih =>
      unfold walkMainBranch
      split
      · rfl
      next hgt =>
        cases rest with
        | nil =>
            rw [List.length_nil] at hreach
            omega
        | cons parent rest =>
            obtain ⟨hfollows, hchain⟩ := List.isChain_cons_cons.mp hbranch
            have hparent := hlive parent (by simp)
            have hlock := (h.lock_eq_some (show ∀ x ∈ ([] : List (ForkItem T)), x ∈ family by simp)).mpr
              ⟨Or.inl hparent, hfollows⟩
            have hstep := h.follows_num (h.live item hitem) (h.live parent hparent) hfollows
            rw [List.length_cons] at hreach
            simp only [hlock]
            exact ih hparent hchain (fun x hx => hlive x (List.mem_cons_of_mem parent hx))
              (by omega) (by omega)

/-- Every height on an indexed branch below the head can be fetched. -/
theorem fetchBlockOnMainBranchByNumber_isSome (h : fdb.Consistent family) {num : Nat}
    {head : ForkItem T} {rest : List (ForkItem T)} (hhead : fdb.head = some head)
    (hbranch : Branch (head :: rest)) (hindexed : ∀ x ∈ head :: rest, x ∈ fdb.index)
    (hlow : num ≤ head.num) (hreach : head.num ≤ num + rest.length) :
    ∃ found, fdb.fetchBlockOnMainBranchByNumber num = some found ∧ found.num = num := by
  have hlive : ∀ x ∈ head :: rest, x ∈ fdb.live := fun x hx => mem_live.mpr (Or.inl (hindexed x hx))
  obtain ⟨x, hx⟩ : ∃ x, (head :: rest)[head.num - num]? = some x :=
    ⟨_, List.getElem?_eq_getElem (by rw [List.length_cons]; omega)⟩
  have hxNum := (h.branch_get hbranch (fun y hy => h.index (hindexed y hy)) rfl hx).2
  have hxMem : x ∈ fdb.fetchBlockByNumber num := by
    rw [fetchBlockByNumber, List.mem_filter]
    refine ⟨hindexed x (List.mem_of_getElem? hx), ?_⟩
    have : x.num = num := by omega
    simpa using this
  obtain ⟨found, hfound⟩ : ∃ found, fdb.fetchBlockOnMainBranchByNumber num = some found := by
    unfold fetchBlockOnMainBranchByNumber
    split
    next hnone =>
      rw [hnone] at hxMem
      cases hxMem
    next item hsingle => exact ⟨item, rfl⟩
    next =>
      unfold walkMainBranchToNum
      rw [hhead]
      simp only
      rw [if_neg (not_lt.mpr hlow)]
      exact Option.isSome_iff_exists.mp (walkMainBranch_isSome h (hlive head (by simp)) hbranch
        (fun y hy => hlive y (List.mem_cons_of_mem head hy)) le_rfl hreach)
  refine ⟨found, hfound, ?_⟩
  rcases fetchBlockOnMainBranchByNumber_spec h hfound with honly | ⟨_, _, _, _, _, _, hnum, _⟩
  · have hxNum' : x.num = num := by omega
    rw [← honly x (hindexed x (List.mem_of_getElem? hx)) hxNum', hxNum']
  · exact hnum

end MainBranch

end ForkDatabase

end Blurt
