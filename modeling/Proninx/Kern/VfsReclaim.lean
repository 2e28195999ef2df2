import Proninx.Kern.VfsRun

/-!
# Removing a directory

`ufs2_make_directory` gives a directory two links, one for its name and
one for its `.` entry. `sys_unlink` takes one of them away, and `iput`
frees an inode without links only. A directory that was made and removed
again is therefore never freed: it keeps its number and its block, and
nothing leads to it any more.
-/

namespace Proninx.Vfs

open Blockdev ByteMem Option State Stateful Ufs2

variable {v : Volume} {mine : Nat → Prop} {s t : State} {n dp : Nat} {e p : Cached}
  {x y : Inode}

lemma sysMkdir_made (hg : Ground v mine) (h : Agreeing v mine s) (hn : Named v s.disk dp)
    (hleft : LinksLeft v s.disk dp) (name : List UInt8)
    (hfound : ∀ n, (lookup v dp name).run s.disk = .ok (some n, s.disk) → Usable v s.disk n)
    (cred : Cred) :
    Leads (sysMkdir v cred dp name) s fun r t => r → Coherent v mine (fun k => k = dp) t ∧
        ∃ n, MadeIn v s.disk t.disk dp n ∧ t.cache n = none := by
  unfold sysMkdir
  refine parent_coherent hg h hn name hfound cred .dir ?_
  intro r t G _ ht hr
  cases r with
  | none => exact .pure nofun
  | some n => ?_
  obtain ⟨hne, hmade, e, hc, hv, -⟩ := hr n rfl
  obtain ⟨hmade, href⟩ := hmade rfl hleft
  have hskip : ¬ (n = dp ∧ G) := fun hk => hmade.ne hk.1
  obtain ⟨z, hz, -, -, hnlink, -⟩ := ht.agrees n e hskip hc hv
  obtain ⟨w, hw, htwo, -⟩ := hmade.made.dir rfl
  cases hz.symm.trans hw
  refine (iput_agreeing hg ht hskip).bind ?_
  rintro _ u ⟨hu, hrel⟩
  have hdisk : u.disk = t.disk := hrel.linked (by
    rw [entry_of_cache hc, hnlink, htwo]
    decide)
  exact .pure fun _ => ⟨hu.mono fun k hk => hk.1, n, hdisk ▸ hmade, hrel.last (le_of_eq href)⟩

lemma hold_skipped (h : Coherent v mine (fun k => k = dp) s)
    (hn : Marked v (v.bytes s.disk) dp true) {β : Type} {f : Sys β} {Q : β → State → Prop}
    (hf : ∀ t p, Coherent v mine (fun k => k = dp) t → t.disk = s.disk → t.cache dp = some p →
      (∀ k ≠ dp, t.cache k = s.cache k) → Leads f t Q) :
    Leads (do
      iget dp
      ilock v dp
      f) s Q := by
  refine (iget_coherent h hn).bind ?_
  rintro _ t ⟨ht, rfl⟩
  have hc : (s.put dp (some { s.entry dp with ref := (s.entry dp).ref + 1 })).cache dp
      = some { s.entry dp with ref := (s.entry dp).ref + 1 } := by
    rw [cache_put, if_pos rfl]
  refine .bind (P := fun _ t => Coherent v mine (fun k => k = dp) t ∧ t.disk = s.disk ∧
    (∃ p, t.cache dp = some p) ∧ ∀ k ≠ dp, t.cache k = s.cache k) ?_
    fun _ t ⟨ht, hdisk, ⟨p, hp⟩, hothers⟩ => hf t p ht hdisk hp hothers
  have hothers : ∀ k ≠ dp,
      (s.put dp (some { s.entry dp with ref := (s.entry dp).ref + 1 })).cache k = s.cache k :=
    fun k hk => by rw [cache_put, if_neg hk]
  unfold ilock
  refine .get ?_
  split
  · exact .pure ⟨ht, rfl, ⟨_, hc⟩, hothers⟩
  refine .bind_ok (onDisk_inode rfl) (.modify ⟨ht.put hn fun hno => absurd rfl hno, rfl,
    ⟨_, (State.cache_put ..).trans (if_pos rfl)⟩, fun k hk => ?_⟩)
  rw [cache_put, if_neg hk, hothers k hk]

/-- What `sys_unlink` leaves of the bitmaps and of the two inodes. -/
structure Removed (v : Volume) (d d' : Disk) (dp n : Nat) : Prop where
  free_iff : ∀ k, FreeAt v (v.bytes d') k ↔ FreeAt v (v.bytes d) k
  marked : ∀ k u, Marked v (v.bytes d') k u ↔ Marked v (v.bytes d) k u
  parent : ∀ x, inodeAt v (v.bytes d) dp = some x → ∃ y, inodeAt v (v.bytes d') dp = some y ∧
    y.nlink = x.nlink - 1
  inode : ∀ x, inodeAt v (v.bytes d) n = some x → ∃ y, inodeAt v (v.bytes d') n = some y ∧
    y.nlink = x.nlink - 1

lemma unlinkNode_removes (hg : Ground v mine) (h : Coherent v mine (fun k => k = dp) s)
    (hne : n ≠ dp) (hc : s.cache n = some e) (hv : e.valid) (htype : e.type = .dir)
    (hcp : s.cache dp = some p) (hy : inodeAt v (v.bytes s.disk) dp = some y)
    (name : List UInt8) :
    Leads (unlinkNode v dp n name) s fun r t => r →
      Coherent v mine (fun k => k = dp) t ∧ Removed v s.disk t.disk dp n ∧
      (∃ e', t.cache n = some e' ∧ e'.ref = e.ref ∧ e'.nlink = e.info.nlink - 1) ∧
      ∃ p', t.cache dp = some p' ∧ p'.nlink = y.nlink - 1 := by
  have hl := h.live hne hc hv
  obtain ⟨x, hx, hsame, hsize, -, hmode⟩ := h.agrees n e hne hc hv
  have hdp := h.used dp p hcp
  have hlp := h.placed.live hdp hy
  unfold unlinkNode
  refine .get ?_
  dsimp only
  refine .bind (P := fun _ t => t = s) (Leads.onDisk fun b d hrun => ?_) ?_
  · rw [isDirEmpty_reads n s.disk b d hrun]
  rintro b t rfl
  split
  · exact .pure nofun
  refine .bind (P := fun _ u => Coherent v mine (fun k => k = dp) u ∧ u.cache = t.cache ∧
    Neat v mine (nowhere v) (v.bytes t.disk) (v.bytes u.disk)) ?_ ?_
  · refine Leads.onDisk fun r d hrun => ?_
    have hq := dirunlink_data hg name (fun x hx => h.placed.sited dp x hdp hx) r d hrun
    have hneat := hq.neat hg h.placed.base
    exact ⟨h.data hg hneat.toTidy, rfl, hneat⟩
  rintro r u ⟨hu, hcache, hneat⟩
  cases r with
  | none => exact .pure nofun
  | some removed => ?_
  refine .get ?_
  split
  · exact .pure nofun
  rw [entry_of_cache hc, htype, if_pos (decide_eq_true rfl)]
  have hyu : inodeAt v (v.bytes u.disk) dp = some y :=
    (hneat.confined.inodeAt hg (hlp.ne_nowhere hg)).trans hy
  have hcu : u.cache dp = some p := hcache ▸ hcp
  refine .bind_ok (onDisk_inode hyu) ?_
  dsimp only
  split
  · exact .pure nofun
  refine .get ?_
  rw [entry_of_cache hcu]
  let parent : Inode := { y with nlink := y.nlink - 1 }
  let p' : Cached := { p with info := parent, nlink := parent.nlink }
  have hlt := hlp.typed.nlink
  have hlu := hu.placed.live (hu.used dp p hcu) hyu
  refine .modify_bind ?_
  have hput : Coherent v mine (fun k => (fun k => k = dp) k ∨ k = dp) (u.put dp (some p')) :=
    (hu.mono fun _ => .inl).put hlu.marked fun hno => absurd (.inr rfl) hno
  refine (writeInode_coherent (y := parent) hg hput hlu.marked
    (hlu.sited.pointers (fun _ _ => rfl) rfl) (hlp.typed.relink (by omega))).bind ?_
  rintro r t1 ⟨rfl, hcache1, ht1, hstored1, hneat1⟩
  have hco1 : Coherent v mine (fun k => k = dp) t1 := ht1.mono fun k hk => hk.elim id id
  have hc1 : t1.cache n = some e := by rw [hcache1, cache_put, if_neg hne, hcache, hc]
  refine .bind_ok (a := true) rfl (.get ?_)
  rw [entry_of_cache hc1]
  have hl1 := hco1.live hne hc1 hv
  have hlt1 := hl1.typed.nlink
  refine update_coherent (e := e.relink (e.info.nlink - 1)) hg hco1 hl1.marked
    (hl1.sited.pointers (fun _ _ => rfl) rfl) (hl1.typed.relink (by omega))
    (hsize.trans hsame.size.symm) rfl (hmode.trans (by rw [← hsame.mode]; rfl)) ?_
  intro t3 ht3 hcache3 hneat3 hstored3
  refine .pure fun _ => ⟨ht3, ⟨fun k => ?_, fun k u => ?_, fun z hz => ?_, fun z hz => ?_⟩,
    ⟨e.relink (e.info.nlink - 1), ?_, rfl, rfl⟩, p', ?_, rfl⟩
  · exact (hneat3.free_iff k).trans ((hneat1.free_iff k).trans (hneat.free_iff k))
  · exact (hneat3.marked k u).trans ((hneat1.marked k u).trans (hneat.marked k u))
  · cases hy.symm.trans hz
    obtain ⟨q, hq, hqs⟩ := hstored1
    exact ⟨q, (hneat3.confined.inodeAt hg hne.symm).trans hq, hqs.nlink⟩
  · cases hx.symm.trans hz
    obtain ⟨q, hq, hqs⟩ := hstored3
    exact ⟨q, hq, by rw [hqs.nlink, ← hsame.nlink]; rfl⟩
  · rw [hcache3, cache_put, if_pos rfl]
  · rw [hcache3, cache_put, if_neg hne.symm, hcache1, cache_put, if_pos rfl]

lemma sysUnlink_removes (hg : Ground v mine) (h : Coherent v mine (fun k => k = dp) s)
    (hdp : Marked v (v.bytes s.disk) dp true) (hy : inodeAt v (v.bytes s.disk) dp = some y)
    (hlinks : 2 ≤ y.nlink) (hne : n ≠ dp) (hnone : s.cache n = none) (hu : Usable v s.disk n)
    (hx : inodeAt v (v.bytes s.disk) n = some x) (hdir : x.mode &&& IFMT = IFDIR)
    (htwo : 2 ≤ x.nlink) (name : List UInt8)
    (hname : (lookup v dp name).run s.disk = .ok (some n, s.disk)) (cred : Cred) :
    Leads (sysUnlink v cred dp name) s fun r t => r →
      Removed v s.disk t.disk dp n ∧ t.cache n = none := by
  unfold sysUnlink
  refine hold_skipped h hdp ?_
  intro t p ht hdisk hcp hothers
  refine .get ?_
  split
  · exact .bind .trivial fun _ _ _ => .pure (by simp)
  refine (dirlookup_leads name).bind ?_
  rintro r u ⟨-, hsome⟩
  cases r with
  | none => exact .bind .trivial fun _ _ _ => .pure (by simp)
  | some k => ?_
  obtain ⟨hrun, rfl⟩ := hsome k rfl
  rw [hdisk, hname] at hrun
  cases hrun
  have hblank : t.entry n = blank := by
    rw [entry, hothers n hne, hnone]
    rfl
  rw [hblank]
  have hut : Usable v t.disk n := hdisk ▸ hu
  have hc1 : (t.put n (some { blank with ref := blank.ref + 1 })).cache n
      = some { blank with ref := blank.ref + 1 } := by
    rw [cache_put, if_pos rfl]
  have ht1 := ht.iget hut.1
  rw [hblank] at ht1
  refine (ilock_coherent ht1 hut hc1).bind ?_
  rintro _ w ⟨hw, e, rfl, hv, href, hload⟩
  have hxt : inodeAt v (v.bytes t.disk) n = some x := hdisk ▸ hx
  obtain ⟨htype, hinfo⟩ : e.type = .dir ∧ e.info = x := by
    obtain ⟨-, z, hz, hfile, hsize⟩ := hut
    cases hxt.symm.trans hz
    have he := hload Bool.false_ne_true
    rw [show inodeAt v (v.bytes (t.put n _).disk) n = some x from hxt, load,
      if_pos ⟨hfile, hsize⟩, if_pos hdir] at he
    rw [he]
    exact ⟨rfl, rfl⟩
  have hcn := State.cache_put (t.put n (some { blank with ref := blank.ref + 1 })) n n (some e)
  rw [if_pos rfl] at hcn
  have hcd : ((t.put n (some { blank with ref := blank.ref + 1 })).put n (some e)).cache dp
      = some p := by
    rw [cache_put, if_neg hne.symm, cache_put, if_neg hne.symm, hcp]
  have hyt : inodeAt v (v.bytes t.disk) dp = some y := hdisk ▸ hy
  refine (unlinkNode_removes hg hw hne hcn hv htype hcd hyt name).bind ?_
  rintro ok w hok
  split
  · next htrue =>
    obtain ⟨hw, hrem, ⟨e', hce, href', hnlink⟩, p', hcp', hplink⟩ := hok htrue
    refine (iput_coherent hg (hw.mono fun _ => .inl) (fun q hq _ hzero => ?_) (.inr hw)).bind ?_
    · rw [hcp'] at hq
      cases hq
      omega
    rintro _ w1 ⟨hw1, hrel1⟩
    have hdisk1 : w1.disk = w.disk := hrel1.linked (by
      rw [entry_of_cache hcp']
      omega)
    have hc1 : w1.cache n = some e' := (hrel1.cache n hne).trans hce
    refine (iput_agreeing hg hw1 hne).bind ?_
    rintro _ w2 ⟨-, hrel2⟩
    have hdisk2 : w2.disk = w1.disk := hrel2.linked (by
      rw [entry_of_cache hc1, hnlink, hinfo]
      omega)
    refine .pure fun _ => ⟨?_, hrel2.last (by
      rw [entry_of_cache hc1, href', href]
      decide)⟩
    rw [hdisk2, hdisk1, ← hdisk]
    exact hrem
  · exact .bind .trivial fun _ _ _ => .bind .trivial fun _ _ _ => .pure (by simp)

/-- What there is to see of inode 3 and of the block of fragment 8. -/
structure LostView where
  map : Option Nat
  used : Bool
  freeMap : Option (Nat × Nat)
  free : Bool
  found : Option (Option Nat)
  cached : Bool
  numbers : List Nat
  deriving DecidableEq

def lostView (s : State) : LostView where
  map := inodeMapAt homeVolume (homeVolume.bytes s.disk) 0
  used := testBit (homeVolume.bytes s.disk 76928) 3
  freeMap := freeMapAt homeVolume (homeVolume.bytes s.disk) 0
  free := testBit (homeVolume.bytes s.disk 77057) 0
  found := ((lookup homeVolume 2 [97]).run s.disk).toOption.map (·.1)
  cached := (s.cache 3).isSome
  numbers := (Ufs2.entries (directory homeVolume 2 s.disk)).map Prod.snd

def lostCalls : List Call := [.mkdir ⟨0, 0⟩ 2 [97], .unlink ⟨0, 0⟩ 2 [97]]

lemma lostHome_view : lostView (coldHome 1 tightRegion)
    = ⟨some 76928, false, some (77056, 16), true, some none, false, [2, 2]⟩ := by
  decide +kernel

lemma lostCalls_watch : watch homeVolume lostView lostCalls (coldHome 1 tightRegion) = .ok [
    (true, ⟨some 76928, true, some (77056, 16), false, some (some 3), false, [2, 3, 2]⟩),
    (true, ⟨some 76928, true, some (77056, 16), false, some none, false, [2, 2]⟩)] := by
  decide +kernel

lemma marked_of_view {s : State} {used : Bool}
    (hmap : inodeMapAt homeVolume (homeVolume.bytes s.disk) 0 = some 76928)
    (hused : testBit (homeVolume.bytes s.disk 76928) 3 = used) :
    Marked homeVolume (homeVolume.bytes s.disk) 3 used :=
  ⟨76928, hmap, homeVolume_fits (by decide), hused⟩

lemma lookup_of_view {s : State} {r : Option Nat}
    (h : ((lookup homeVolume 2 [97]).run s.disk).toOption.map (·.1) = some r) :
    (lookup homeVolume 2 [97]).run s.disk = .ok (r, s.disk) := by
  obtain ⟨d, hrun⟩ := Prog.ok_of_fst h
  rw [hrun, lookup_reads 2 [97] s.disk r d hrun]

end Proninx.Vfs
