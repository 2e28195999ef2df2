import Proninx.Kern.Ufs2Place
import Proninx.Kern.Vfs

/-!
# The inode cache and the dinodes

`struct inode` is a second copy of the dinode. `Coherent` says that every
valid entry agrees with the disk. Every system call keeps that or is one
of three kinds that do not: it lets a directory grow that was referenced
before the call, or it fails after it changed the size of the file it
writes or truncates.
-/

namespace Proninx.Vfs

open Blockdev ByteMem Function Nat Option State Stateful Ufs2

variable (v : Volume) (mine : Nat → Prop)

/-- The entry `e` agrees with the dinode of `n`: size, link count, mode and
block pointers. -/
def Matches (m : Mem) (n : Nat) (e : Cached) : Prop :=
  ∃ x, inodeAt v m n = some x ∧ e.info.Same x ∧ e.size = x.size ∧ e.nlink = x.nlink ∧
    e.mode = x.mode &&& 0o7777

/-- Entries are of used inodes, and the valid ones agree with the disk,
those of `skip` aside. -/
structure Coherent (skip : Nat → Prop) (s : State) : Prop where
  placed : Placed v mine (v.bytes s.disk)
  used : ∀ n e, s.cache n = some e → Marked v (v.bytes s.disk) n true
  agrees : ∀ n e, ¬ skip n → s.cache n = some e → e.valid → Matches v (v.bytes s.disk) n e

/-- `ilock` can represent inode `n`: it is in use, and a file or directory
of less than four gigabytes. -/
def Usable (d : Disk) (n : Nat) : Prop :=
  Marked v (v.bytes d) n true ∧ ∃ x, inodeAt v (v.bytes d) n = some x ∧
    (x.mode &&& IFMT = IFDIR ∨ x.mode &&& IFMT = IFREG) ∧ x.size ≤ 0xffffffff

variable {v mine} {skip : Nat → Prop} {s : State} {n : Nat} {e : Cached} {d : Disk}

/-! ## Changes of the cache and of the disk -/

lemma State.entry_of_cache (h : s.cache n = some e) : s.entry n = e := by
  rw [entry, h]
  rfl

lemma State.cache_put (s : State) (n k : Nat) (e : Option Cached) :
    (s.put n e).cache k = if k = n then e else s.cache k :=
  update_apply ..

lemma Coherent.put (h : Coherent v mine skip s) (hn : Marked v (v.bytes s.disk) n true)
    (he : ¬ skip n → e.valid → Matches v (v.bytes s.disk) n e) :
    Coherent v mine skip (s.put n (some e)) where
  placed := h.placed
  used k e' hk := by
    rw [cache_put] at hk
    split at hk
    · next heq => exact heq ▸ hn
    · exact h.used k e' hk
  agrees k e' hs hk hv := by
    rw [cache_put] at hk
    split at hk
    · next heq =>
      subst heq
      cases hk
      exact he hs hv
    · exact h.agrees k e' hs hk hv

lemma Coherent.drop (h : Coherent v mine (fun k => skip k ∨ k = n) s) :
    Coherent v mine skip (s.put n none) where
  placed := h.placed
  used k e' hk := by
    rw [cache_put] at hk
    split at hk
    · cases hk
    · exact h.used k e' hk
  agrees k e' hs hk hv := by
    rw [cache_put] at hk
    split at hk
    · cases hk
    · next hne => exact h.agrees k e' (fun hor => hor.elim hs hne) hk hv

lemma Coherent.mono {skip' : Nat → Prop} (h : Coherent v mine skip s)
    (hs : ∀ k, skip k → skip' k) : Coherent v mine skip' s :=
  { h with agrees := fun k e' hk => h.agrees k e' fun hb => hk (hs k hb) }

lemma Coherent.settle (h : Coherent v mine (fun k => skip k ∨ k = n) s)
    (he : ∀ e, s.cache n = some e → e.valid → Matches v (v.bytes s.disk) n e) :
    Coherent v mine skip s := by
  refine { h with agrees := fun k e' hs hk hv => ?_ }
  by_cases heq : k = n
  · subst heq
    exact he e' hk hv
  · exact h.agrees k e' (fun hor => hor.elim hs heq) hk hv

lemma Coherent.free (h : Coherent v mine (fun k => skip k ∨ k = n) s)
    (hp : Placed v mine (v.bytes d))
    (hi : ∀ k ≠ n, inodeAt v (v.bytes d) k = inodeAt v (v.bytes s.disk) k)
    (hm : ∀ k u, k ≠ n → (Marked v (v.bytes d) k u ↔ Marked v (v.bytes s.disk) k u)) :
    Coherent v mine skip ({ s with disk := d }.put n none) where
  placed := hp
  used k e' hk := by
    rw [cache_put] at hk
    split at hk
    · cases hk
    · next hne => exact (hm k true hne).mpr (h.used k e' hk)
  agrees k e' hs hk hv := by
    rw [cache_put] at hk
    split at hk
    · cases hk
    next hne =>
    obtain ⟨x, hx, hrest⟩ := h.agrees k e' (fun hor => hor.elim hs hne) hk hv
    exact ⟨x, (hi k hne).trans hx, hrest⟩

lemma Coherent.tidy (hg : Ground v mine) (h : Coherent v mine skip s)
    (ht : Tidy v mine n (v.bytes s.disk) (v.bytes d)) (hp : Placed v mine (v.bytes d)) :
    Coherent v mine (fun k => skip k ∨ k = n) { s with disk := d } where
  placed := hp
  used k e' hk := (ht.marked k true).mpr (h.used k e' hk)
  agrees k e' hs hk hv := by
    rw [not_or] at hs
    obtain ⟨x, hx, hrest⟩ := h.agrees k e' hs.1 hk hv
    exact ⟨x, (ht.confined.inodeAt hg hs.2).trans hx, hrest⟩

lemma Coherent.data (hg : Ground v mine) (h : Coherent v mine skip s)
    (ht : Tidy v mine (nowhere v) (v.bytes s.disk) (v.bytes d)) :
    Coherent v mine skip { s with disk := d } := by
  have hne : ∀ {k}, Marked v (v.bytes s.disk) k true → k ≠ nowhere v := by
    rintro k hk rfl
    have hgroup := hk.group
    rw [nowhere, Nat.mul_div_cancel _ (Nat.pos_of_ne_zero hg.probed.inodesPerGroup)] at hgroup
    omega
  have hp : Placed v mine (v.bytes d) :=
    h.placed.tidy hg ht fun hmark => absurd rfl (hne hmark)
  refine ⟨hp, fun k e' hk => (ht.marked k true).mpr (h.used k e' hk), fun k e' hs hk hv => ?_⟩
  obtain ⟨x, hx, hrest⟩ := h.agrees k e' hs hk hv
  exact ⟨x, (ht.confined.inodeAt hg (hne (h.used k e' hk))).trans hx, hrest⟩

/-! ## Locking, releasing and writing back -/

lemma Coherent.live (h : Coherent v mine skip s) (hs : ¬ skip n) (hc : s.cache n = some e)
    (hv : e.valid) : Live v mine n (v.bytes s.disk) e.info := by
  obtain ⟨x, hx, hsame, -⟩ := h.agrees n e hs hc hv
  exact (h.placed.live (h.used n e hc) hx).copy hsame

lemma load_matches (e : Cached) (hu : Usable v d n) : (load e (inodeAt v (v.bytes d) n)).valid ∧
      Matches v (v.bytes d) n (load e (inodeAt v (v.bytes d) n)) ∧
      (load e (inodeAt v (v.bytes d) n)).ref = e.ref := by
  obtain ⟨-, x, hx, htype, hsize⟩ := hu
  have hload : load e (some x) = { e with
      valid := true
      info := x
      type := if x.mode &&& IFMT = IFDIR then .dir else .file
      size := x.size
      nlink := x.nlink
      uid := x.uid
      gid := x.gid
      mode := x.mode &&& 0o7777 } := if_pos ⟨htype, hsize⟩
  rw [hx, hload]
  exact ⟨rfl, ⟨x, hx, .refl x, rfl, rfl, rfl⟩, rfl⟩

lemma State.put_self (h : s.cache n = some e) : s.put n (some e) = s := by
  rw [put, ← h, update_eq_self]

lemma Coherent.iget (h : Coherent v mine skip s) (hn : Marked v (v.bytes s.disk) n true) :
    Coherent v mine skip (s.put n (some { s.entry n with ref := (s.entry n).ref + 1 })) := by
  refine h.put hn fun hs hv => ?_
  cases hc : s.cache n with
  | none =>
    rw [entry, hc] at hv
    cases hv
  | some e => ?_
  rw [entry_of_cache hc] at hv ⊢
  exact h.agrees n e hs hc hv

lemma iget_coherent (h : Coherent v mine skip s) (hn : Marked v (v.bytes s.disk) n true) :
    Leads (iget n) s fun _ t => Coherent v mine skip t ∧
      t = s.put n (some { s.entry n with ref := (s.entry n).ref + 1 }) :=
  .modify ⟨h.iget hn, rfl⟩

lemma ilock_coherent (h : Coherent v mine skip s) (hu : Usable v s.disk n)
    (hc : s.cache n = some e) :
    Leads (ilock v n) s fun _ t => Coherent v mine skip t ∧
      ∃ e', t = s.put n (some e') ∧ e'.valid ∧ e'.ref = e.ref ∧
        (¬ e.valid → e' = load e (inodeAt v (v.bytes s.disk) n)) := by
  unfold ilock
  refine .get ?_
  rw [entry_of_cache hc]
  split
  · next hv =>
    exact .pure ⟨h, e, (State.put_self hc).symm, hv, rfl, fun hno => absurd hv hno⟩
  next hv =>
  refine .bind_ok (onDisk_inode rfl) ?_
  obtain ⟨hvalid, hmatch, href⟩ := load_matches e hu
  exact .modify ⟨h.put hu.1 fun _ _ => hmatch, _, rfl, hvalid, href, fun _ => rfl⟩

variable (v) in
/-- What `iput` of `n` leaves alone. -/
structure Released (n : Nat) (s t : State) : Prop where
  cache : ∀ k, k ≠ n → t.cache k = s.cache k
  inodes : ∀ k, k ≠ n → inodeAt v (v.bytes t.disk) k = inodeAt v (v.bytes s.disk) k
  marked : ∀ k u, k ≠ n → (Marked v (v.bytes t.disk) k u ↔ Marked v (v.bytes s.disk) k u)
  shared : 1 < (s.entry n).ref → t.disk = s.disk ∧
    t.cache n = some { s.entry n with ref := (s.entry n).ref - 1 }
  linked : (s.entry n).nlink ≠ 0 → t.disk = s.disk
  last : (s.entry n).ref ≤ 1 → t.cache n = none

lemma Released.put : Released v n s (s.put n (if (s.entry n).ref ≤ 1 then none
    else some { s.entry n with ref := (s.entry n).ref - 1 })) where
  cache k hk := by rw [cache_put, if_neg hk]
  inodes _ _ := rfl
  marked _ _ _ := .rfl
  shared href := ⟨rfl, by rw [cache_put, if_pos rfl, if_neg (not_le.mpr href)]⟩
  linked _ := rfl
  last href := by rw [cache_put, if_pos rfl, if_pos href]

lemma Released.usable {t : State} (h : Released v n s t) {k : Nat} (hk : k ≠ n)
    (hu : Usable v s.disk k) : Usable v t.disk k := by
  obtain ⟨hm, x, hx, hrest⟩ := hu
  exact ⟨(h.marked k true hk).mpr hm, x, (h.inodes k hk).trans hx, hrest⟩

lemma iput_coherent (hg : Ground v mine) (h : Coherent v mine (fun k => skip k ∨ k = n) s)
    (hfree : ∀ e, s.cache n = some e → e.valid → e.nlink = 0 →
      Live v mine n (v.bytes s.disk) e.info)
    (hlast : (s.entry n).ref ≤ 1 ∨ Coherent v mine skip s) :
    Leads (iput v n) s fun _ t => Coherent v mine skip t ∧ Released v n s t := by
  unfold iput
  refine .get ?_
  dsimp only
  cases hc : s.cache n with
  | none =>
    have he : s.entry n = blank := by
      rw [entry, hc]
      rfl
    have hput := Released.put (v := v) (n := n) (s := s)
    rw [he] at hput ⊢
    exact .modify ⟨h.drop, hput⟩
  | some e => ?_
  have he := State.entry_of_cache hc
  have hput := Released.put (v := v) (n := n) (s := s)
  rw [he] at hput hlast ⊢
  split
  · next hcond =>
    have hl := hfree e hc hcond.2.1 hcond.2.2
    refine .bind (P := fun _ t => ∃ d, t = { s with disk := d } ∧ Placed v mine (v.bytes d) ∧
      (∀ k ≠ n, inodeAt v (v.bytes d) k = inodeAt v (v.bytes s.disk) k) ∧
      ∀ k u, k ≠ n → (Marked v (v.bytes d) k u ↔ Marked v (v.bytes s.disk) k u)) ?_ ?_
    · refine Leads.onDisk fun x d hrun => ?_
      exact ⟨d, rfl, (itrunc_placed hg h.placed hl).of_eq hrun⟩
    rintro x t ⟨d, rfl, hp, hi, hm⟩
    refine .modify ⟨h.free hp hi hm, fun k hk => ?_, hi, hm, fun href => ?_,
      fun hlink => ?_, fun _ => ?_⟩
    · rw [cache_put, if_neg hk]
    · rw [he] at href
      omega
    · rw [he] at hlink
      exact absurd hcond.2.2 hlink
    · rw [cache_put, if_pos rfl]
  · refine .modify ⟨?_, hput⟩
    split
    · exact h.drop
    next hmore =>
    have h' := hlast.resolve_left hmore
    exact h'.put (h.used n e hc) fun hs hv => h'.agrees n e hs hc hv

lemma iput_agreeing (hg : Ground v mine) (h : Coherent v mine skip s) (hs : ¬ skip n) :
    Leads (iput v n) s fun _ t => Coherent v mine skip t ∧ Released v n s t :=
  iput_coherent hg (h.mono fun _ => .inl) (fun _ hc hv _ => h.live hs hc hv) (.inr h)

lemma writeInode_coherent (hg : Ground v mine) {y : Inode}
    (h : Coherent v mine (fun k => skip k ∨ k = n) s)
    (hn : Marked v (v.bytes s.disk) n true) (hy : Sited v mine (v.bytes s.disk) y)
    (ht : y.Typed) :
    Leads (onDisk (writeInode v n y)) s fun r t => r = some () ∧ t.cache = s.cache ∧
      Coherent v mine (fun k => skip k ∨ k = n) t ∧ Stored v (v.bytes t.disk) n y ∧
      Neat v mine n (v.bytes s.disk) (v.bytes t.disk) := by
  obtain ⟨d', hrun', htidy, hstored⟩ := writeInode_neat hg h.placed.base hn ht
  refine Leads.onDisk fun r d hrun => ?_
  rw [hrun'] at hrun
  cases hrun
  have hp : Placed v mine (v.bytes d') := h.placed.tidy hg htidy.toTidy fun _ z hz => by
    obtain ⟨w, hw, hsame⟩ := hstored
    rw [hz] at hw
    cases hw
    exact (hy.confined htidy.confined).same hsame
  refine ⟨rfl, rfl, (h.tidy hg htidy.toTidy hp).mono fun k hk => ?_, hstored, htidy⟩
  rcases hk with hk | hk
  · exact hk
  · exact .inr hk

section

variable (hg : Ground v mine) (h : Coherent v mine skip s) (hn : Marked v (v.bytes s.disk) n true)
  (hsited : Sited v mine (v.bytes s.disk) e.info) (htyped : e.info.Typed)
  (hsize : e.size = e.info.size) (hnlink : e.nlink = e.info.nlink)
  (hmode : e.mode = e.info.mode &&& 0o7777)
include hg h hn hsited htyped hsize hnlink hmode

lemma entry_coherent :
    Leads (onDisk (writeInode v n e.info)) (s.put n (some e)) fun r t => r = some () ∧
      Coherent v mine skip t ∧ t.cache = (s.put n (some e)).cache ∧
      Neat v mine n (v.bytes s.disk) (v.bytes t.disk) ∧ Stored v (v.bytes t.disk) n e.info := by
  have h' : Coherent v mine (fun k => skip k ∨ k = n) (s.put n (some e)) :=
    (h.mono fun _ => .inl).put hn fun hno => absurd (.inr rfl) hno
  refine (writeInode_coherent hg h' hn hsited htyped).mono ?_
  rintro r t ⟨rfl, hcache, ht, hstored, htidy⟩
  refine ⟨rfl, ht.settle fun e' hc' _ => ?_, hcache, htidy, hstored⟩
  rw [hcache, cache_put, if_pos rfl] at hc'
  cases hc'
  obtain ⟨x, hx, hsame⟩ := hstored
  exact ⟨x, hx, hsame.symm, hsize.trans hsame.size.symm, hnlink.trans hsame.nlink.symm, by
    rw [hmode, hsame.mode]⟩

lemma update_coherent {β : Type} {f : Option Unit → Sys β} {Q : β → State → Prop}
    (hf : ∀ t, Coherent v mine skip t → t.cache = (s.put n (some e)).cache →
      Neat v mine n (v.bytes s.disk) (v.bytes t.disk) → Stored v (v.bytes t.disk) n e.info →
        Leads (f (some ())) t Q) :
    Leads (do
      setEntry n e
      let r ← onDisk (writeInode v n e.info)
      f r) s Q := by
  refine .modify_bind ((entry_coherent hg h hn hsited htyped hsize hnlink hmode).bind ?_)
  rintro r t ⟨rfl, ht, hcache, htidy, hstored⟩
  exact hf t ht hcache htidy hstored

end

/-! ## Attributes -/

variable (v mine) in
/-- Every valid entry agrees with the disk. -/
abbrev Agreeing (s : State) : Prop := Coherent v mine (fun _ => False) s

lemma hold_coherent (h : Coherent v mine skip s) (hu : Usable v s.disk n) {β : Type}
    {f : Sys β} {Q : β → State → Prop}
    (hf : ∀ t e, Coherent v mine skip t → t.disk = s.disk → t.cache n = some e → e.valid →
      (s.cache n = none → e.ref = 1) → (∀ k ≠ n, t.cache k = s.cache k) → Leads f t Q) :
    Leads (do
      iget n
      ilock v n
      f) s Q := by
  refine (iget_coherent h hu.1).bind ?_
  rintro _ t ⟨ht, rfl⟩
  have hc : (s.put n (some { s.entry n with ref := (s.entry n).ref + 1 })).cache n
      = some { s.entry n with ref := (s.entry n).ref + 1 } := by
    rw [cache_put, if_pos rfl]
  refine (ilock_coherent ht hu hc).bind ?_
  rintro _ t ⟨ht, e', rfl, hv, href, -⟩
  refine hf _ e' ht rfl (by rw [cache_put, if_pos rfl]) hv (fun hnone => ?_) fun k hk => ?_
  · rw [href, entry, hnone]
    rfl
  · rw [cache_put, if_neg hk, cache_put, if_neg hk]

lemma mode_bits (a b : Nat) : (a &&& IFMT ||| b &&& 0o7777) &&& 0o7777 = b &&& 0o7777 := by
  have hdisjoint : IFMT &&& 0o7777 = 0 := by decide
  rw [and_or_distrib_right, Nat.and_assoc, hdisjoint, and_zero, zero_or, Nat.and_assoc,
    Nat.and_self]

variable (v) in
/-- The dinode of `n` has the size and the block pointers it had. -/
def SameContents (d d' : Disk) (n : Nat) : Prop :=
  ∀ x, inodeAt v (v.bytes d) n = some x → ∃ y, inodeAt v (v.bytes d') n = some y ∧
    y.size = x.size ∧ (∀ i, i < DIRECT_BLOCKS → y.direct i = x.direct i) ∧
    ∀ i, i < 3 → y.indirect i = x.indirect i

variable (v) in
/-- An inode that a path leads to: `ilock` can represent it, and it has a
link. -/
structure Named (d : Disk) (n : Nat) : Prop where
  usable : Usable v d n
  linked : ∀ x, inodeAt v (v.bytes d) n = some x → x.nlink ≠ 0

/-- The end of `sys_chmod` and `sys_chown`: the entry and the dinode get new
attributes, and the reference is given back. -/
lemma attributes_coherent (hg : Ground v mine) (h : Agreeing v mine s)
    (hlinked : ∀ x, inodeAt v (v.bytes s.disk) n = some x → x.nlink ≠ 0)
    (hc : s.cache n = some e) (hv : e.valid) {e' : Cached} {info : Inode}
    (he : e' = { e with info := info, uid := e'.uid, gid := e'.gid, mode := e'.mode })
    (hinfo : info = { e.info with mode := info.mode, uid := info.uid, gid := info.gid })
    (htyped : info.Typed) (hmode : e'.mode = info.mode &&& 0o7777) :
    Leads (do
      setEntry n e'
      let r ← onDisk (writeInode v n info)
      iput v n
      pure r.isSome) s fun _ t => Agreeing v mine t ∧ ∀ k, SameContents v s.disk t.disk k := by
  have hl := h.live id hc hv
  obtain ⟨x, hx, hsame, hsize, hnlink, -⟩ := h.agrees n e id hc hv
  have hei : e'.info = info := by rw [he]
  have hin : info.nlink = e.info.nlink := by rw [hinfo]
  have his : info.size = e.info.size := by rw [hinfo]
  have hdirect : info.direct = e.info.direct := by rw [hinfo]
  have hindirect : info.indirect = e.info.indirect := by rw [hinfo]
  have hes : e'.size = e.size := by rw [he]
  have hen : e'.nlink = e.nlink := by rw [he]
  subst hei
  refine update_coherent hg h hl.marked ?_ htyped ?_ ?_ hmode ?_
  · exact hl.sited.pointers (fun b _ => by rw [hdirect]) (by rw [hindirect])
  · rw [hes, his, hsize, hsame.size]
  · rw [hen, hin, hnlink, hsame.nlink]
  intro t ht hcache htidy hstored
  refine (iput_agreeing hg ht id).bind fun _ u ⟨hu, hrel⟩ => .pure ⟨hu, fun k z hz => ?_⟩
  have hct : t.cache n = some e' := by rw [hcache, cache_put, if_pos rfl]
  have hdisk : u.disk = t.disk := hrel.linked (by
    rw [entry_of_cache hct, hen, hnlink]
    exact hlinked x hx)
  rw [hdisk]
  by_cases hk : k = n
  · subst hk
    obtain ⟨y, hy, hys⟩ := hstored
    have hxz : x = z := some.inj (hx.symm.trans hz)
    subst hxz
    exact ⟨y, hy, by rw [hys.size, his, hsame.size],
      fun i hi => by rw [hys.direct i hi, hdirect, hsame.direct i hi],
      fun i hi => by rw [hys.indirect i hi, hindirect, hsame.indirect i hi]⟩
  · exact ⟨z, (htidy.confined.inodeAt hg hk).trans hz, rfl, fun _ _ => rfl, fun _ _ => rfl⟩

lemma SameContents.refl (d : Disk) (n : Nat) : SameContents v d d n :=
  fun x hx => ⟨x, hx, rfl, fun _ _ => rfl, fun _ _ => rfl⟩

lemma sysChmod_coherent (hg : Ground v mine) (h : Agreeing v mine s) (hn : Named v s.disk n)
    (cred : Cred) (mode : Nat) :
    Leads (sysChmod v cred n mode) s fun _ t =>
      Agreeing v mine t ∧ ∀ k, SameContents v s.disk t.disk k := by
  unfold sysChmod
  refine hold_coherent h hn.usable ?_
  intro t e ht hdisk hc hv _ _
  obtain ⟨x, hx, -, -, hnlink, -⟩ := ht.agrees n e id hc hv
  have hlinked : ∀ x, inodeAt v (v.bytes t.disk) n = some x → x.nlink ≠ 0 := hdisk ▸ hn.linked
  refine .get ?_
  split
  · refine (iput_agreeing hg ht id).bind fun _ u ⟨hu, hrel⟩ => .pure ⟨hu, fun k => ?_⟩
    rw [hrel.linked (by rw [entry_of_cache hc, hnlink]; exact hlinked x hx), hdisk]
    exact .refl s.disk k
  rw [entry_of_cache hc, ← hdisk]
  have hl := ht.live id hc hv
  have hmode := or_lt_two_pow (lt_of_le_of_lt (and_le_left (m := IFMT)) hl.typed.mode)
    (lt_of_le_of_lt (and_le_right (n := mode) (m := 0o7777)) (by decide))
  exact attributes_coherent hg ht hlinked hc hv rfl rfl
    ⟨hmode, hl.typed.nlink, hl.typed.uid, hl.typed.gid, hl.typed.size, hl.typed.direct,
      hl.typed.indirect⟩ (mode_bits _ _).symm

lemma sysChown_coherent (hg : Ground v mine) (h : Agreeing v mine s) (hn : Named v s.disk n)
    {uid gid : Nat} (huid : uid < 2 ^ 32) (hgid : gid < 2 ^ 32) :
    Leads (sysChown v n uid gid) s fun _ t =>
      Agreeing v mine t ∧ ∀ k, SameContents v s.disk t.disk k := by
  unfold sysChown
  refine hold_coherent h hn.usable ?_
  intro t e ht hdisk hc hv _ _
  refine .get ?_
  rw [entry_of_cache hc, ← hdisk]
  have hl := ht.live id hc hv
  obtain ⟨x, -, hsame, -, -, hmode⟩ := ht.agrees n e id hc hv
  exact attributes_coherent hg ht (hdisk ▸ hn.linked) hc hv rfl rfl
    ⟨hl.typed.mode, hl.typed.nlink, huid, hgid, hl.typed.size, hl.typed.direct,
      hl.typed.indirect⟩ (hmode.trans (by rw [hsame.mode]))

/-! ## Contents -/

variable (v) in
def sizeAt (d : Disk) (n : Nat) : Option Nat := (inodeAt v (v.bytes d) n).map (·.size)

variable (v) in
/-- The size of an inode that was referenced before is another one now. -/
def Resized (s t : State) (n : Nat) : Prop :=
  s.cache n ≠ none ∧ sizeAt v t.disk n ≠ sizeAt v s.disk n

lemma sizeAt_stored {x : Inode} (h : Stored v (v.bytes d) n x) : sizeAt v d n = some x.size := by
  obtain ⟨y, hy, hs⟩ := h
  rw [sizeAt, hy, map_some, hs.size]

section

variable (hg : Ground v mine) (h : Coherent v mine skip s) (hs : ¬ skip n) (hc : s.cache n = some e)
  (hv : e.valid)
include hg h hs hc hv

lemma file_coherent {y : Inode} (hk : Kept v mine n s.disk e.info d y) (size : Nat) :
    Coherent v mine (fun k => skip k ∨ k = n)
      ({ s with disk := d }.put n (some { e with info := y, size := size })) ∧
    (size = y.size →
      Coherent v mine skip ({ s with disk := d }.put n (some { e with info := y, size := size }))) := by
  have hp : Placed v mine (v.bytes d) := h.placed.tidy hg hk.tidy fun _ z hz => by
    obtain ⟨w, hw, hsame⟩ := hk.live.stored
    rw [hz] at hw
    cases hw
    exact hk.live.sited.same hsame
  have h' := ((h.tidy hg hk.tidy hp).put hk.live.marked
    (e := { e with info := y, size := size }) fun hno => absurd (.inr rfl) hno)
  refine ⟨h', fun hsize => h'.settle fun e' hc' _ => ?_⟩
  rw [cache_put, if_pos rfl] at hc'
  cases hc'
  obtain ⟨x, -, hsame, -, hnlink, hmode⟩ := h.agrees n e hs hc hv
  obtain ⟨z, hz, hsame'⟩ := hk.live.stored
  refine ⟨z, hz, hsame'.symm, hsize.trans hsame'.size.symm, ?_, ?_⟩
  · rw [hsame'.nlink, hk.kin.1, hsame.nlink]
    exact hnlink
  rw [hsame'.mode, hk.kin.2.1, hsame.mode]
  exact hmode

lemma openNode_coherent (trunc : Bool) :
    Leads (openNode v n trunc) s fun r t => (Coherent v mine skip t ∨
      (r = false ∧ 1 < e.ref ∧ sizeAt v t.disk n ≠ sizeAt v s.disk n)) ∧
      ∀ k ≠ n, inodeAt v (v.bytes t.disk) k = inodeAt v (v.bytes s.disk) k := by
  have hl := h.live hs hc hv
  unfold openNode
  split
  · refine .get ?_
    rw [entry_of_cache hc]
    refine .bind (P := fun p t => t = { s with disk := t.disk } ∧
        Kept v mine n s.disk e.info t.disk p.2 ∧ (p.1 = some () → p.2.size = 0))
      (Leads.onDisk fun p d hrun => ⟨rfl, (truncate_kept hg hl).of_eq hrun⟩) ?_
    rintro ⟨r, y⟩ t ⟨ht, hk, hzero⟩
    rw [ht]
    obtain ⟨hskip, hok⟩ := file_coherent hg h hs hc hv hk (if r.isSome then 0 else e.size)
    have hothers : ∀ k ≠ n, inodeAt v (v.bytes t.disk) k = inodeAt v (v.bytes s.disk) k :=
      fun k hk' => hk.tidy.confined.inodeAt hg hk'
    dsimp only at hok hskip ⊢
    refine .modify_bind ?_
    cases r with
    | some _ => exact .pure ⟨.inl (hok (hzero rfl).symm), hothers⟩
    | none => ?_
    have hlive : ∀ e', ({ s with disk := t.disk }.put n
        (some { e with info := y, size := e.size })).cache n = some e' → e'.valid →
          e'.nlink = 0 → Live v mine n (v.bytes t.disk) e'.info := by
      intro e' hc' _ _
      rw [cache_put, if_pos rfl] at hc'
      cases hc'
      exact hk.live
    by_cases hlast : e.ref ≤ 1
    · -- nobody else holds the entry: it is dropped
      refine (iput_coherent hg hskip hlive (.inl ?_)).bind fun _ u hu =>
        .pure ⟨.inl hu.1, fun k hk' => (hu.2.inodes k hk').trans (hothers k hk')⟩
      rw [entry_put, if_pos rfl]
      exact hlast
    by_cases hsize : e.size = y.size
    · exact (iput_agreeing hg (hok hsize) hs).bind fun _ u hu =>
        .pure ⟨.inl hu.1, fun k hk' => (hu.2.inodes k hk').trans (hothers k hk')⟩
    refine (iput_shared (v := v) ?_).bind fun _ u hu =>
      .pure ⟨.inr ⟨rfl, by omega, ?_⟩, fun k hk' => ?_⟩
    · rw [entry_put, if_pos rfl]
      exact not_le.mp hlast
    · rw [hu]
      obtain ⟨x, hx, hsame, hex, -⟩ := h.agrees n e hs hc hv
      have hold : sizeAt v s.disk n = some e.size := by rw [sizeAt, hx, map_some, hex]
      have hnew : sizeAt v t.disk n = some y.size := sizeAt_stored hk.live.stored
      rw [hold]
      exact fun heq => hsize (some.inj (heq.symm.trans hnew))
    · rw [hu]
      exact hothers k hk'
  · exact .pure ⟨.inl h, fun _ _ => rfl⟩

end

lemma sysOpen_coherent (hg : Ground v mine) (h : Agreeing v mine s) (hu : Usable v s.disk n)
    (cred : Cred) (write trunc : Bool) :
    Leads (sysOpen v cred n write trunc) s fun r t =>
      Agreeing v mine t ∨ (r = false ∧ Resized v s t n) := by
  unfold sysOpen
  refine hold_coherent h hu ?_
  intro t e ht hdisk hc hv hfirst _
  refine .get ?_
  generalize (if write then 2 else 4) = mask
  split
  · exact (iput_agreeing hg ht id).bind fun _ t h => .pure (.inl h.1)
  refine (openNode_coherent hg ht id hc hv trunc).mono fun r u hr => hr.1.imp_right ?_
  rintro ⟨hfail, href, hsize⟩
  refine ⟨hfail, fun hnone => ?_, hdisk ▸ hsize⟩
  have := hfirst hnone
  omega

lemma sysWrite_coherent (hg : Ground v mine) (h : Agreeing v mine s) (hu : Usable v s.disk n)
    (hopen : s.cache n ≠ none) (offset : Nat) (src : Mem) (length : Nat) :
    Leads (sysWrite v n offset src length) s fun r t =>
      Agreeing v mine t ∨ (r = false ∧ Resized v s t n) := by
  have hbs := hg.probed.blockMax
  unfold sysWrite
  split
  · exact .pure (.inl h)
  obtain ⟨e0, hc0⟩ := ne_none_iff_exists'.mp hopen
  refine (ilock_coherent h hu hc0).bind ?_
  rintro _ t ⟨ht, e, rfl, hv, -⟩
  refine .get ?_
  have hc : (s.put n (some e)).cache n = some e := by rw [cache_put, if_pos rfl]
  have hl := ht.live id hc hv
  rw [entry_of_cache hc]
  refine .bind (P := fun p t => t = { s.put n (some e) with disk := t.disk } ∧
      Kept v mine n (s.put n (some e)).disk e.info t.disk p.2 ∧
      (p.1 = some () → p.2.size = e.info.size ∨ p.2.size ≤ DIRECT_BLOCKS * v.blockSize))
    (Leads.onDisk fun p d hrun => ⟨rfl, (writeGrowing_kept hg hl _ _ _).of_eq hrun⟩) ?_
  rintro ⟨r, y⟩ t ⟨heq, hk, hnew⟩
  rw [heq]
  dsimp only at hk hnew
  obtain ⟨hskip, hok⟩ := file_coherent hg ht id hc hv hk
    (if r.isSome then y.size % 2 ^ 32 else e.size)
  dsimp only at hok hskip ⊢
  refine .modify_bind ?_
  obtain ⟨x, hx, hsame, hex, -⟩ := ht.agrees n e id hc hv
  cases r with
  | some _ =>
    refine .pure (.inl (hok (mod_eq_of_lt ?_)))
    obtain ⟨-, x', hx', -, hsmall⟩ := hu
    rcases hnew rfl with hold | hle
    · have heq : some x = some x' := hx.symm.trans hx'
      cases heq
      have hle : y.size ≤ 0xffffffff := hold ▸ hsame.size ▸ hsmall
      exact lt_of_le_of_lt hle (by decide)
    · unfold DIRECT_BLOCKS at hle
      omega
  | none =>
    by_cases hsize : e.size = y.size
    · exact .pure (.inl (hok hsize))
    refine .pure (.inr ⟨rfl, hopen, fun heq' => hsize ?_⟩)
    have hold : sizeAt v s.disk n = some e.size := by
      rw [sizeAt, hex]
      exact congrArg (Option.map (·.size)) hx
    have hnew : sizeAt v t.disk n = some y.size := sizeAt_stored hk.live.stored
    exact some.inj (hold.symm.trans (heq'.symm.trans hnew))

lemma sysClose_coherent (hg : Ground v mine) (h : Agreeing v mine s) :
    Leads (sysClose v n) s fun _ t => Agreeing v mine t :=
  (iput_agreeing hg h id).mono fun _ _ ht => ht.1

/-! ## New inodes -/

variable (v mine) in
/-- Some of the way through `create` in `dp`, whose inode was `x` and is
`y`: nothing that was in use has changed, but `dp` may have grown. -/
structure Onward (dp : Nat) (d : Disk) (x : Inode) (d' : Disk) (y : Inode) : Prop where
  placed : Placed v mine (v.bytes d')
  read : inodeAt v (v.bytes d') dp = some y
  kin : x.Kin y
  grew : y = x ∨ x.size < y.size
  marked : ∀ k, Marked v (v.bytes d) k true → Marked v (v.bytes d') k true
  others : ∀ k, k ≠ dp → Marked v (v.bytes d) k true →
    inodeAt v (v.bytes d') k = inodeAt v (v.bytes d) k

variable (v) in
/-- A new inode: its number was free, and it can be locked. A directory
has two links and a block that was free. -/
structure Made (type : NewType) (d d' : Disk) (n : Nat) : Prop where
  fresh : Marked v (v.bytes d) n false
  others : ∀ k u, k ≠ n → (Marked v (v.bytes d') k u ↔ Marked v (v.bytes d) k u)
  usable : Usable v d' n
  dir : type = .dir → ∃ y, inodeAt v (v.bytes d') n = some y ∧ y.nlink = 2 ∧
    y.mode &&& IFMT = IFDIR ∧ FreeAt v (v.bytes d) (y.direct 0) ∧ ¬ FreeAt v (v.bytes d') (y.direct 0)

variable {dp : Nat} {x y : Inode} {d1 d2 : Disk}

lemma Onward.stage (h : Onward v mine dp d x d1 y) (hp : Placed v mine (v.bytes d2))
    (hn : n ≠ dp) (hfresh : Marked v (v.bytes d) n false)
    (hi : ∀ k ≠ n, inodeAt v (v.bytes d2) k = inodeAt v (v.bytes d1) k)
    (hm : ∀ k u, k ≠ n → (Marked v (v.bytes d2) k u ↔ Marked v (v.bytes d1) k u)) :
    Onward v mine dp d x d2 y := by
  have hne : ∀ {k}, Marked v (v.bytes d) k true → k ≠ n := by
    rintro k hk rfl
    cases hk.unique hfresh
  exact ⟨hp, (hi dp hn.symm).trans h.read, h.kin, h.grew,
    fun k hk => (hm k true (hne hk)).mpr (h.marked k hk),
    fun k hk hmark => (hi k (hne hmark)).trans (h.others k hk hmark)⟩

lemma makeDirectory_onward (hg : Ground v mine) (h : Onward v mine dp d x d1 x)
    (hn : n ≠ dp) (hfresh : Marked v (v.bytes d) n false) (hused : Marked v (v.bytes d1) n true)
    {z : Inode} (hz : inodeAt v (v.bytes d1) n = some z) :
    (makeDirectory v n dp).Ensures d1 fun r d2 => Onward v mine dp d x d2 x ∧
      Marked v (v.bytes d2) n true ∧
      (∀ k u, Marked v (v.bytes d2) k u ↔ Marked v (v.bytes d1) k u) ∧
      (r = some () → Usable v d2 n ∧ ∃ w, inodeAt v (v.bytes d2) n = some w ∧ w.nlink = 2 ∧
        w.mode &&& IFMT = IFDIR ∧ FreeAt v (v.bytes d1) (w.direct 0) ∧ ¬ FreeAt v (v.bytes d2) (w.direct 0)) := by
  have hmax := hg.probed.blockMax
  refine (makeDirectory_kept hg dp (h.placed.live hused hz) hz).mono
    fun r d2 ⟨ht, w, hw, hl, hdir⟩ => ?_
  have hp : Placed v mine (v.bytes d2) := h.placed.tidy hg ht fun _ w' hw' => by
    rw [hw] at hw'
    cases hw'
    exact hl.sited
  refine ⟨h.stage hp hn hfresh (fun k hk => ht.confined.inodeAt hg hk)
    (fun k u _ => ht.marked k u), hl.marked, ht.marked, fun hr => ?_⟩
  obtain ⟨hnlink, -, hmode, hsize, hwas, hnow⟩ := hdir hr
  exact ⟨⟨hl.marked, w, hw, .inl hmode, by omega⟩, w, hw, hnlink, hmode, hwas, hnow⟩

lemma createNode_onward (hg : Ground v mine) (hp : Placed v mine (v.bytes d))
    (hdp : Marked v (v.bytes d) dp true) (hx : inodeAt v (v.bytes d) dp = some x)
    (name : List UInt8) (type : NewType) :
    (createNode v dp name type).Leads d fun r d' => (∃ y, Onward v mine dp d x d' y) ∧
      ∀ n, r = some n → Made v type d d' n := by
  unfold createNode
  refine (allocInode_spec hg.numbers type.mode d).leads.bind fun r d1 hspec => ?_
  cases r with
  | none =>
    obtain ⟨hp1, hm1, hi1⟩ := Untaken.placed hg hp hspec
    exact .pure ⟨⟨x, hp1, (hi1 dp hdp).trans hx, .refl x, .inl rfl,
      fun k hk => (hm1 k true).mpr hk, fun k _ hk => hi1 k hk⟩, nofun⟩
  | some n => ?_
  have ht : TookInode v (v.bytes d) (v.bytes d1) type.mode n := hspec
  obtain ⟨hp1, hc1, hused1, hm1, hfree1⟩ := ht.placed hg hp
  have hn : n ≠ dp := by
    rintro rfl
    cases hdp.unique ht.marked
  have hstart : Onward v mine dp d x d x :=
    ⟨hp, hx, .refl x, .inl rfl, fun _ hk => hk, fun _ _ _ => rfl⟩
  have h1 : Onward v mine dp d x d1 x :=
    hstart.stage hp1 hn ht.marked (fun k hk => hc1.inodeAt hg hk) hm1
  obtain ⟨z, hz, hmode, hsize, -⟩ := ht.fresh
  -- the inode after its own stage, if it has one
  refine Prog.Leads.bind (P := fun r d2 => (∃ y, Onward v mine dp d x d2 y) ∧
    Marked v (v.bytes d2) n true ∧ (r = some () → Made v type d d2 n)) ?_ ?_
  · refine Prog.Leads.andThen (P := fun r d2 => Onward v mine dp d x d2 x ∧
      Marked v (v.bytes d2) n true ∧ (r = some () → Made v type d d2 n)) ?_
      (fun d2 h2 => ⟨⟨x, h2.1⟩, h2.2⟩) ?_
    · split
      · next hdir =>
        refine (makeDirectory_onward hg h1 hn ht.marked hused1 hz).leads.mono
          fun r d2 ⟨h2, hused2, hmark2, hmade⟩ => ⟨h2, hused2, fun hr => ?_⟩
        obtain ⟨husable, w, hw, hnlink, hmode, hwas, hnow⟩ := hmade hr
        exact ⟨ht.marked, fun k u hk => (hmark2 k u).trans (hm1 k u hk), husable,
          fun _ => ⟨w, hw, hnlink, hmode, (hfree1 _).mp hwas, hnow⟩⟩
      next hdir =>
      refine .pure ⟨h1, hused1, fun _ => ⟨ht.marked, hm1, ⟨hused1, z, hz, .inr ?_, by omega⟩,
        fun hb => absurd hb hdir⟩⟩
      have hreg : type.mode = 0o100644 := by
        cases type with
        | dir => exact absurd rfl hdir
        | file => rfl
        | device => rfl
      rw [hmode, hreg]
      decide
    rintro _ d2 ⟨h2, hused2, hmade⟩
    have hmade := hmade rfl
    have hl2 := h2.placed.live (h2.marked dp hdp) h2.read
    refine (dirlink_inserted hg hl2 h2.read name n _).mono ?_
    rintro r d3 ⟨y, hins⟩
    have hp3 : Placed v mine (v.bytes d3) :=
      h2.placed.tidy hg hins.tidy fun _ w hw => by
        rw [hins.read] at hw
        cases hw
        exact hins.live.sited
    have hi3 : inodeAt v (v.bytes d3) n = inodeAt v (v.bytes d2) n :=
      hins.tidy.confined.inodeAt hg hn
    have hused3 := (hins.tidy.marked n true).mpr hused2
    refine ⟨⟨y, hp3, hins.read, h2.kin.trans hins.kin, hins.grew,
      fun k hk => (hins.tidy.marked k true).mpr (h2.marked k hk),
      fun k hk hmark => (hins.tidy.confined.inodeAt hg hk).trans (h2.others k hk hmark)⟩,
      hused3, fun _ => ⟨hmade.fresh,
        fun k u hk => (hins.tidy.marked k u).trans (hmade.others k u hk), ?_,
        fun hdir => ?_⟩⟩
    · obtain ⟨-, w, hw, hrest⟩ := hmade.usable
      exact ⟨hused3, w, hi3.trans hw, hrest⟩
    obtain ⟨w, hw, hnlink, hmode, hwas, hnow⟩ := hmade.dir hdir
    exact ⟨w, hi3.trans hw, hnlink, hmode, hwas, fun hf => hnow (hins.free _ hf)⟩
  · rintro r d2 ⟨⟨y, h2⟩, hused2, hmade⟩
    cases r with
    | some _ =>
      refine .pure ⟨⟨y, h2⟩, fun k hk => ?_⟩
      cases hk
      exact hmade rfl
    | none => ?_
    dsimp only
    rw [if_pos ht.root]
    refine (freeInode_used hg ht.root hused2).leads.bind fun _ d3 hf => .pure ⟨?_, nofun⟩
    obtain ⟨hp3, hc3, -, hm3⟩ := hf.placed hg h2.placed
    exact ⟨y, h2.stage hp3 hn ht.marked (fun k hk => hc3.inodeAt hg hk) hm3⟩

end Proninx.Vfs
