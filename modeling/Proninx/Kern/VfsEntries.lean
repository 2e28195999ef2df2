import Proninx.Kern.VfsCoherent

/-!
# System calls on directory entries, and runs of system calls

`ufs2_dirlink` changes the dinode of the directory and not its entry in
the cache. `create` and `sys_link` drop the entry at once when nobody else
holds it; when somebody does, it is stale from then on if the directory
grew.
-/

namespace Proninx.Vfs

open Blockdev ByteMem Nat Option Runs State Stateful Ufs2

variable {v : Volume} {mine : Nat → Prop} {skip : Nat → Prop} {s t : State} {n dp : Nat}
  {e : Cached} {x y : Inode} {d : Disk}

lemma sizeAt_congr {d' : Disk} (h : inodeAt v (v.bytes d') n = inodeAt v (v.bytes d) n) :
    sizeAt v d' n = sizeAt v d n := by
  rw [sizeAt, h, sizeAt]

lemma sizeAt_some (h : inodeAt v (v.bytes d) n = some x) : sizeAt v d n = some x.size := by
  rw [sizeAt, h, map_some]

lemma Onward.coherent (h : Coherent v mine skip s) (ho : Onward v mine dp s.disk x d y) :
    Coherent v mine (fun k => skip k ∨ k = dp) { s with disk := d } where
  placed := ho.placed
  used k e hk := ho.marked k (h.used k e hk)
  agrees k e hs hk hv := by
    rw [not_or] at hs
    obtain ⟨z, hz, hrest⟩ := h.agrees k e hs.1 hk hv
    exact ⟨z, (ho.others k hs.2 (h.used k e hk)).trans hz, hrest⟩

lemma dirlookup_leads (name : List UInt8) :
    Leads (dirlookup v dp name) s fun r t => (r = none → t = s) ∧ ∀ n, r = some n →
      (lookup v dp name).run s.disk = .ok (some n, s.disk) ∧
        t = s.put n (some { s.entry n with ref := (s.entry n).ref + 1 }) := by
  refine .get ?_
  split
  · exact .throw
  refine .bind (P := fun r t => t = s ∧ (lookup v dp name).run s.disk = .ok (r, s.disk)) ?_ ?_
  · refine Leads.onDisk fun r d hrun => ?_
    have hd := lookup_reads dp name s.disk r d hrun
    subst hd
    exact ⟨rfl, hrun⟩
  rintro r t ⟨rfl, hrun⟩
  cases r with
  | none => exact .pure ⟨fun _ => rfl, nofun⟩
  | some n => ?_
  refine .modify_bind (.pure ⟨nofun, fun k hk => ?_⟩)
  cases hk
  exact ⟨hrun, rfl⟩

section

variable (hg : Ground v mine)
include hg

/-- The entry of the parent gets the inode that was read from the disk, and
with it the blocks it grew by; its `size` stays. -/
lemma countSubdirectory_coherent
    (h : Coherent v mine (fun k => skip k ∨ k = dp) s) (hc : s.cache dp = some e)
    (hy : inodeAt v (v.bytes s.disk) dp = some y) (hmode : e.mode = y.mode &&& 0o7777) :
    Leads (countSubdirectory v dp) s fun _ t => ∃ e',
      t.cache = (s.put dp (some e')).cache ∧ e'.ref = e.ref ∧ e'.valid = e.valid ∧
      Coherent v mine (fun k => skip k ∨ k = dp) t ∧ Live v mine dp (v.bytes t.disk) e'.info ∧
      Neat v mine dp (v.bytes s.disk) (v.bytes t.disk) ∧ sizeAt v t.disk dp = some y.size ∧
      (e.size = y.size → Matches v (v.bytes t.disk) dp e') ∧
      e'.nlink = (y.nlink + 1) % 2 ^ 16 ∧
      ∃ z, inodeAt v (v.bytes t.disk) dp = some z ∧ z.nlink = (y.nlink + 1) % 2 ^ 16 := by
  have hn := h.used dp e hc
  have hl := h.placed.live hn hy
  refine .bind_ok (onDisk_inode hy) (.get ?_)
  rw [entry_of_cache hc]
  let parent : Inode := { y with nlink := (y.nlink + 1) % 2 ^ 16 }
  let e' : Cached := { e with info := parent, nlink := parent.nlink }
  refine .modify_bind ?_
  have htyped : parent.Typed := hl.typed.relink (mod_lt _ (by decide))
  have hsited : Sited v mine (v.bytes s.disk) parent := hl.sited.pointers (fun _ _ => rfl) rfl
  have h' : Coherent v mine (fun k => skip k ∨ k = dp) (s.put dp (some e')) :=
    h.put hn fun hno => absurd (.inr rfl) hno
  refine (writeInode_coherent hg h' hn hsited htyped).bind ?_
  rintro r w ⟨-, hcache, hw, hstored, htidy⟩
  have hlive : Live v mine dp (v.bytes w.disk) parent :=
    ⟨htidy.base, (htidy.marked dp true).mpr hn, hstored, hsited.confined htidy.confined, htyped⟩
  have hnew : sizeAt v w.disk dp = some parent.size := sizeAt_stored hstored
  obtain ⟨z, hz, hsame⟩ := hstored
  refine .pure ⟨e', hcache, rfl, rfl, hw, hlive, htidy, hnew, fun hsize => ?_, rfl, z, hz,
    hsame.nlink⟩
  exact ⟨z, hz, hsame.symm, hsize.trans hsame.size.symm, hsame.nlink.symm, by
    rw [hsame.mode]
    exact hmode⟩

/-! ## Making an entry -/

variable (v) in
/-- The size of `dp` changed on the disk, and its entry stays because
somebody else holds it. -/
def Outgrown (s t : State) (dp : Nat) : Prop :=
  1 < (s.entry dp).ref ∧ sizeAt v t.disk dp ≠ sizeAt v s.disk dp

lemma iput_parent (h : Coherent v mine (fun k => k = dp) t)
    (hc : t.cache dp = some e) (href : e.ref = (s.entry dp).ref)
    (hfree : e.nlink = 0 → Live v mine dp (v.bytes t.disk) e.info)
    (hsize : sizeAt v t.disk dp = sizeAt v s.disk dp → Matches v (v.bytes t.disk) dp e) :
    Leads (iput v dp) t fun _ u =>
      Coherent v mine (fun k => k = dp ∧ Outgrown v s u dp) u ∧ Released v dp t u := by
  have he := State.entry_of_cache hc
  have hlive : ∀ e', t.cache dp = some e' → e'.valid → e'.nlink = 0 →
      Live v mine dp (v.bytes t.disk) e'.info := by
    intro e' hc' _ hzero
    rw [hc] at hc'
    cases hc'
    exact hfree hzero
  by_cases hout : Outgrown v s t dp
  · refine (iput_coherent hg (h.mono fun _ => .inr) hlive (.inr h)).mono ?_
    rintro _ u ⟨hu, hrel⟩
    have hdisk := (hrel.shared (by rw [he, href]; exact hout.1)).1
    exact ⟨hu.mono fun k hk => ⟨hk, hout.1, hdisk ▸ hout.2⟩, hrel⟩
  have hlast : (t.entry dp).ref ≤ 1 ∨ Agreeing v mine t := by
    rw [he, href]
    by_cases hone : (s.entry dp).ref ≤ 1
    · exact .inl hone
    refine .inr ((h.mono fun _ => .inr).settle fun e' hc' _ => ?_)
    rw [hc] at hc'
    cases hc'
    exact hsize (Decidable.byContradiction fun hne => hout ⟨not_le.mp hone, hne⟩)
  refine (iput_coherent hg (h.mono fun _ => .inr) hlive hlast).mono ?_
  rintro _ u ⟨hu, hrel⟩
  exact ⟨hu.mono fun _ => False.elim, hrel⟩

variable (v) in
/-- The directory `n` is new, and its parent `dp` has a link more. -/
structure MadeIn (d d' : Disk) (dp n : Nat) : Prop where
  made : Made v .dir d d' n
  ne : n ≠ dp
  marked : Marked v (v.bytes d') dp true
  parent : ∀ x, inodeAt v (v.bytes d) dp = some x → ∃ y, inodeAt v (v.bytes d') dp = some y ∧
    y.nlink = (x.nlink + 1) % 2 ^ 16

variable (v) in
/-- `dp` can get a link more. -/
def LinksLeft (d : Disk) (dp : Nat) : Prop :=
  ∀ x, inodeAt v (v.bytes d) dp = some x → x.nlink + 1 < 2 ^ 16

variable (v) in
/-- The inode `n` that `create` hands over: it is locked, and when somebody
else holds it, that was so before. A directory is new. -/
structure Handed (type : NewType) (s t : State) (dp n : Nat) : Prop where
  grown : Outgrown v s t dp → n ≠ dp
  made : type = .dir → LinksLeft v s.disk dp → MadeIn v s.disk t.disk dp n ∧ (t.entry n).ref = 1
  entry : ∃ e, t.cache n = some e ∧ e.valid ∧ (1 < e.ref →
    (if n = dp then 1 < (s.entry dp).ref else s.cache n ≠ none) ∧
      sizeAt v t.disk n = sizeAt v s.disk n)

lemma found_coherent (h : Agreeing v mine s) (hc : s.cache dp = some e)
    (href : 1 ≤ e.ref) (hu : Usable v s.disk n) (type : NewType) :
    Leads (do
      iput v dp
      ilock v n
      let s ← get
      if type = .file ∧ (s.entry n).type = .file then pure (some n)
      else do
        iput v n
        pure none)
      (s.put n (some { s.entry n with ref := (s.entry n).ref + 1 })) fun r t =>
      Agreeing v mine t ∧ ∀ k, r = some k → Handed v type s t dp k := by
  have he := State.entry_of_cache hc
  refine (iput_agreeing hg (h.iget hu.1) id).bind ?_
  rintro _ t ⟨ht, hrel⟩
  have hentry : ∃ e1, t.cache n = some e1 ∧ Usable v t.disk n ∧
      (Outgrown v s t dp → n ≠ dp) ∧ sizeAt v t.disk n = sizeAt v s.disk n ∧
      (1 < e1.ref → if n = dp then 1 < (s.entry dp).ref else s.cache n ≠ none) := by
    by_cases hn : n = dp
    · subst hn
      obtain ⟨hdisk, hcache⟩ := hrel.shared (by
        rw [entry_put, if_pos rfl, he]
        exact lt_succ_of_le href)
      have hd : t.disk = s.disk := hdisk
      refine ⟨_, hcache, hd ▸ hu, fun hout => absurd (by rw [hd]) hout.2, by rw [hd], ?_⟩
      rw [if_pos rfl, entry_put, if_pos rfl]
      exact id
    have hcache := hrel.cache n hn
    rw [cache_put, if_pos rfl] at hcache
    have hsize : sizeAt v t.disk n = sizeAt v s.disk n := sizeAt_congr (hrel.inodes n hn)
    refine ⟨_, hcache, hrel.usable hn hu, fun _ => hn, hsize, ?_⟩
    rw [if_neg hn]
    intro hmore hnone
    rw [entry, hnone] at hmore
    exact absurd hmore (by decide)
  obtain ⟨e1, hc1, hu1, hout, hsize, hheld⟩ := hentry
  refine (ilock_coherent ht hu1 hc1).bind ?_
  rintro _ t ⟨ht, e2, rfl, hv, href2, -⟩
  refine .get ?_
  split
  · next hfile =>
    refine .pure ⟨ht, fun k hk => ?_⟩
    cases hk
    refine ⟨hout, fun hdir => ?_, e2, by rw [cache_put, if_pos rfl], hv,
      fun hmore => ⟨hheld (href2 ▸ hmore), hsize⟩⟩
    cases hfile.1.symm.trans hdir
  · exact (iput_agreeing hg ht id).bind fun _ t h => .pure ⟨h.1, (by simp)⟩

/-- The parent is ready to be released after `createNode` made `n`. -/
structure Counted (v : Volume) (mine : Nat → Prop) (type : NewType) (s t : State) (dp n : Nat)
    (e : Cached) : Prop where
  coherent : Coherent v mine (fun k => k = dp) t
  cache : t.cache dp = some e
  others : ∀ k, k ≠ dp → t.cache k = s.cache k
  ref : e.ref = (s.entry dp).ref
  free : e.nlink = 0 → Live v mine dp (v.bytes t.disk) e.info
  size : sizeAt v t.disk dp = sizeAt v s.disk dp → Matches v (v.bytes t.disk) dp e
  usable : Usable v t.disk n
  made : type = .dir → LinksLeft v s.disk dp → MadeIn v s.disk t.disk dp n ∧ e.nlink ≠ 0

lemma made_coherent {type : NewType} (hn : n ≠ dp)
    (hnone : s.cache n = none) (h : Counted v mine type s t dp n e) :
    Leads (do
      iget n
      iput v dp
      ilock v n
      pure (some n)) t fun r u =>
      Coherent v mine (fun k => k = dp ∧ Outgrown v s u dp) u ∧
        ∀ k, r = some k → Handed v type s u dp k := by
  have hentry : t.entry n = blank := by
    rw [entry, h.others n hn, hnone]
    rfl
  refine (iget_coherent h.coherent h.usable.1).bind ?_
  rintro _ t1 ⟨ht1, rfl⟩
  have hc1 : (t.put n (some { t.entry n with ref := (t.entry n).ref + 1 })).cache dp = some e := by
    rw [cache_put, if_neg hn.symm, h.cache]
  refine (iput_parent (s := s) hg ht1 hc1 h.ref h.free h.size).bind ?_
  rintro _ t2 ⟨ht2, hrel⟩
  have hc2 := hrel.cache n hn
  rw [cache_put, if_pos rfl, hentry] at hc2
  refine (ilock_coherent ht2 (hrel.usable hn h.usable) hc2).bind ?_
  rintro _ t3 ⟨ht3, e3, rfl, hv, href, -⟩
  refine .pure ⟨ht3, fun k hk => ?_⟩
  cases hk
  have hc3 := State.cache_put t2 n n (some e3)
  rw [if_pos rfl] at hc3
  refine ⟨fun _ => hn, fun hdir hleft => ?_, e3, hc3, hv, fun hmore => ?_⟩
  · obtain ⟨hmade, hlink⟩ := h.made hdir hleft
    have hdisk : t2.disk = t.disk := hrel.linked (by rwa [entry_of_cache hc1])
    refine ⟨?_, by rw [entry_of_cache hc3, href]; rfl⟩
    change MadeIn v s.disk t2.disk dp n
    rwa [hdisk]
  · rw [href] at hmore
    exact absurd hmore (by decide)

lemma Made.tidy {type : NewType} {d1 d2 : Disk} (h : Made v type d d1 n)
    (hn : n ≠ dp) (ht : Tidy v mine dp (v.bytes d1) (v.bytes d2))
    (hfree : ∀ k, FreeAt v (v.bytes d2) k ↔ FreeAt v (v.bytes d1) k) : Made v type d d2 n where
  fresh := h.fresh
  others k u hk := (ht.marked k u).trans (h.others k u hk)
  usable := by
    obtain ⟨hmark, z, hz, hrest⟩ := h.usable
    exact ⟨(ht.marked n true).mpr hmark, z, (ht.confined.inodeAt hg hn).trans hz, hrest⟩
  dir hdir := by
    obtain ⟨z, hz, hnlink, hmode, hwas, hnow⟩ := h.dir hdir
    exact ⟨z, (ht.confined.inodeAt hg hn).trans hz, hnlink, hmode, hwas,
      fun hf => hnow ((hfree _).mp hf)⟩

lemma new_coherent (h : Agreeing v mine s) (hc : s.cache dp = some e)
    (hv : e.valid) (hlinked : e.nlink ≠ 0) (name : List UInt8) (type : NewType) :
    Leads (do
      match ← onDisk (createNode v dp name type) with
      | none => do
        iput v dp
        pure none
      | some inum => do
        if type = .dir then countSubdirectory v dp
        iget inum
        iput v dp
        ilock v inum
        pure (some inum)) s fun r t =>
      Coherent v mine (fun k => k = dp ∧ Outgrown v s t dp) t ∧
        ∀ n, r = some n → Handed v type s t dp n := by
  have hn := h.used dp e hc
  have href : e.ref = (s.entry dp).ref := by rw [entry_of_cache hc]
  obtain ⟨x, hx, hsame, hsize, hnlink, hmode⟩ := h.agrees dp e id hc hv
  refine .bind (P := fun r t => t.cache = s.cache ∧ Coherent v mine (fun k => k = dp) t ∧
      (∃ y, Onward v mine dp s.disk x t.disk y) ∧
      ∀ n, r = some n → Made v type s.disk t.disk n) ?_ ?_
  · refine Leads.onDisk fun r d hrun => ?_
    obtain ⟨⟨y, ho⟩, hmade⟩ := createNode_onward hg h.placed hn hx name type r d hrun
    exact ⟨rfl, (ho.coherent h).mono fun k hk => hk.resolve_left id, ⟨y, ho⟩, hmade⟩
  rintro r t ⟨hct, hco, ⟨y, ho⟩, hmade⟩
  have hcd : t.cache dp = some e := hct ▸ hc
  have hsame_size : sizeAt v t.disk dp = sizeAt v s.disk dp → y = x := by
    intro hs
    rw [sizeAt_some hx, sizeAt_some ho.read] at hs
    rcases ho.grew with hy | hlt
    · exact hy
    · exact absurd (some.inj hs) (ne_of_gt hlt)
  have hplain : sizeAt v t.disk dp = sizeAt v s.disk dp → Matches v (v.bytes t.disk) dp e := by
    intro hs
    have hy := hsame_size hs
    subst hy
    exact ⟨y, ho.read, hsame, hsize, hnlink, hmode⟩
  cases r with
  | none =>
    exact (iput_parent (s := s) hg hco hcd href (fun hz => absurd hz hlinked) hplain).bind
      fun _ t h => .pure ⟨h.1, nofun⟩
  | some n => ?_
  have hm := hmade n rfl
  have hne : n ≠ dp := by
    rintro rfl
    cases hn.unique hm.fresh
  have hnone : s.cache n = none := by
    cases hcn : s.cache n with
    | none => rfl
    | some e' => cases (h.used n e' hcn).unique hm.fresh
  have hend : ∀ t e', Counted v mine type s t dp n e' → Leads (do
      iget n
      iput v dp
      ilock v n
      pure (some n)) t fun r u =>
      Coherent v mine (fun k => k = dp ∧ Outgrown v s u dp) u ∧
        ∀ n, r = some n → Handed v type s u dp n := fun t e' ht =>
    made_coherent hg hne hnone ht
  dsimp only
  split
  · next hdir =>
    subst hdir
    have hmode' : e.mode = y.mode &&& 0o7777 := by rw [hmode, ho.kin.2.1]
    have hco' : Coherent v mine (fun k => (fun _ => False) k ∨ k = dp) t :=
      hco.mono fun _ => .inr
    refine (countSubdirectory_coherent hg hco' hcd ho.read hmode').bind ?_
    rintro _ u ⟨e', hcu, href', -, hu, hlive, htidy, hsz, hmatch, hlinks, z, hz, hznlink⟩
    have hmade' := hm.tidy hg hne htidy.toTidy htidy.free_iff
    refine hend u e' ⟨hu.mono fun k hk => hk.resolve_left id, ?_, fun k hk => ?_,
      href'.trans href, fun _ => hlive, fun hs => hmatch ?_, hmade'.usable,
      fun _ hleft => ⟨⟨hmade', hne, hlive.marked, fun w hw => ?_⟩, ?_⟩⟩
    · rw [hcu, cache_put, if_pos rfl]
    · rw [hcu, cache_put, if_neg hk, hct]
    · have hy := hsame_size (by rw [sizeAt_some ho.read, ← hsz, hs])
      rw [hy, hsize]
    · cases hx.symm.trans hw
      exact ⟨z, hz, by rw [hznlink, ho.kin.1]⟩
    rw [hlinks, ho.kin.1, mod_eq_of_lt (hleft x hx)]
    exact succ_ne_zero _
  · next hdir =>
    exact hend t e ⟨hco, hcd, fun k _ => by rw [hct], href, fun hz => absurd hz hlinked,
      hplain, hm.usable, fun hd => absurd hd hdir⟩

omit hg in
lemma Outgrown.locked (href : e.ref = (s.entry dp).ref) :
    Outgrown v (s.put dp (some e)) t dp ↔ Outgrown v s t dp := by
  unfold Outgrown
  rw [entry_put, if_pos rfl, getD_some, href]
  rfl

omit hg in
lemma Handed.locked {type : NewType} (href : e.ref = (s.entry dp).ref)
    (h : Handed v type (s.put dp (some e)) t dp n) : Handed v type s t dp n := by
  obtain ⟨hgrown, hmade, e', hc', hv', hheld⟩ := h
  refine ⟨fun hout => hgrown ((Outgrown.locked href).mpr hout), hmade, e', hc', hv',
    fun hmore => ⟨?_, (hheld hmore).2⟩⟩
  have hb := (hheld hmore).1
  split
  · next heq => rwa [if_pos heq, entry_put, if_pos rfl, getD_some, href] at hb
  · next hne => rwa [if_neg hne, cache_put, if_neg hne] at hb

lemma create_coherent (h : Agreeing v mine s) (hu : Usable v s.disk dp)
    (hlinked : ∀ x, inodeAt v (v.bytes s.disk) dp = some x → x.nlink ≠ 0)
    (hc : s.cache dp = some e) (href : 1 ≤ e.ref) (name : List UInt8)
    (hfound : ∀ n, (lookup v dp name).run s.disk = .ok (some n, s.disk) → Usable v s.disk n)
    (cred : Cred) (type : NewType) :
    Leads (create v cred dp name type) s fun r t =>
      Coherent v mine (fun k => k = dp ∧ Outgrown v s t dp) t ∧
        ∀ n, r = some n → Handed v type s t dp n := by
  refine (ilock_coherent h hu hc).bind ?_
  rintro _ t ⟨ht, e1, rfl, hv1, href1, -⟩
  have hc1 : (s.put dp (some e1)).cache dp = some e1 := by rw [cache_put, if_pos rfl]
  have href0 : e1.ref = (s.entry dp).ref := href1.trans (by rw [entry_of_cache hc])
  obtain ⟨x, hx, -, -, hnlink, -⟩ := ht.agrees dp e1 id hc1 hv1
  refine .get ?_
  split
  · exact (iput_agreeing hg ht id).bind fun _ t h => .pure ⟨h.1.mono fun _ => False.elim, nofun⟩
  refine (dirlookup_leads name).bind ?_
  rintro r t ⟨hnone, hsome⟩
  cases r with
  | some n =>
    obtain ⟨hrun, rfl⟩ := hsome n rfl
    refine (found_coherent hg ht hc1 (href1 ▸ href) (hfound n hrun) type).mono ?_
    rintro r t ⟨ht, hr⟩
    exact ⟨ht.mono fun _ => False.elim, fun k hk => (hr k hk).locked href0⟩
  | none => ?_
  cases hnone rfl
  dsimp only
  split
  · exact (iput_agreeing hg ht id).bind fun _ t h =>
      .pure ⟨h.1.mono fun _ => False.elim, nofun⟩
  refine (new_coherent hg ht hc1 hv1 (hnlink ▸ hlinked x hx) name type).mono ?_
  rintro r t ⟨ht, hr⟩
  exact ⟨ht.mono fun k hk => ⟨hk.1, (Outgrown.locked href0).mp hk.2⟩,
    fun k hk => (hr k hk).locked href0⟩

/-! ## System calls -/

omit hg in
lemma Outgrown.resized
    (h : Outgrown v (s.put dp (some { s.entry dp with ref := (s.entry dp).ref + 1 })) t dp) :
    Resized v s t dp := by
  refine ⟨fun hnone => ?_, h.2⟩
  have href := h.1
  rw [entry_put, if_pos rfl, entry, hnone] at href
  exact absurd href (by decide)

omit hg in
lemma Coherent.resolve {G : Prop} (h : Coherent v mine (fun k => k = dp ∧ G) s) :
    Agreeing v mine s ∨ G := by
  by_cases hG : G
  · exact .inr hG
  · exact .inl (h.mono fun k hk => hG hk.2)

section

variable (h : Agreeing v mine s) (hn : Named v s.disk dp) (name : List UInt8)
  (hfound : ∀ n, (lookup v dp name).run s.disk = .ok (some n, s.disk) → Usable v s.disk n)
  (cred : Cred)
include h hn name hfound cred

/-- What `iget` of the parent and `create` lead to. `G` says that the parent
grew while somebody else holds it. -/
lemma parent_coherent (type : NewType) {β : Type} {f : Option Nat → Sys β} {Q : β → State → Prop}
    (hf : ∀ r t G, (G → Resized v s t dp) → Coherent v mine (fun k => k = dp ∧ G) t →
      (∀ n, r = some n → (G → n ≠ dp) ∧ (type = .dir → LinksLeft v s.disk dp →
        MadeIn v s.disk t.disk dp n ∧ (t.entry n).ref = 1) ∧
        ∃ e, t.cache n = some e ∧ e.valid ∧
          (1 < e.ref → s.cache n ≠ none ∧ sizeAt v t.disk n = sizeAt v s.disk n)) →
      Leads (f r) t Q) :
    Leads (do
      iget dp
      let r ← create v cred dp name type
      f r) s Q := by
  refine (iget_coherent h hn.usable.1).bind ?_
  rintro _ t ⟨ht, rfl⟩
  have hc : (s.put dp (some { s.entry dp with ref := (s.entry dp).ref + 1 })).cache dp
      = some { s.entry dp with ref := (s.entry dp).ref + 1 } := by
    rw [cache_put, if_pos rfl]
  refine (create_coherent hg ht hn.usable hn.linked hc (Nat.le_add_left 1 _) name hfound cred
    type).bind ?_
  rintro r t ⟨ht, hr⟩
  refine hf r t _ Outgrown.resized ht fun n hrn => ?_
  obtain ⟨hgrown, hmade, e, hce, hv, hheld⟩ := hr n hrn
  refine ⟨hgrown, hmade, e, hce, hv, fun hmore => ⟨fun hnone => ?_, (hheld hmore).2⟩⟩
  have hb := (hheld hmore).1
  split at hb
  · next heq =>
    subst heq
    rw [entry_put, if_pos rfl, entry, hnone] at hb
    exact absurd hb (by decide)
  · next hne =>
    rw [cache_put, if_neg hne] at hb
    exact hb hnone

lemma sysMkdir_coherent :
    Leads (sysMkdir v cred dp name) s fun _ t => Agreeing v mine t ∨ Resized v s t dp := by
  refine parent_coherent hg h hn name hfound cred .dir ?_
  intro r t G hG ht hr
  cases r with
  | none => exact .pure (ht.resolve.imp_right hG)
  | some n => ?_
  obtain ⟨hne, -⟩ := hr n rfl
  refine (iput_agreeing hg ht fun hk => hne hk.2 hk.1).bind ?_
  rintro _ u ⟨hu, hrel⟩
  refine .pure (hu.resolve.imp_right fun hg' => ⟨(hG hg').1, ?_⟩)
  rw [sizeAt_congr (hrel.inodes dp (hne hg').symm)]
  exact (hG hg').2

lemma sysCreate_coherent (trunc : Bool) : Leads (sysCreate v cred dp name trunc) s fun r t =>
      Agreeing v mine t ∨ Resized v s t dp ∨ (r = false ∧ ∃ n, Resized v s t n) := by
  refine parent_coherent hg h hn name hfound cred .file ?_
  intro r t G hG ht hr
  cases r with
  | none => exact .pure (ht.resolve.imp_right fun hg' => .inl (hG hg'))
  | some n => ?_
  obtain ⟨hne, -, e, hc, hv, hheld⟩ := hr n rfl
  refine (openNode_coherent hg ht (fun hk => hne hk.2 hk.1) hc hv trunc).mono ?_
  rintro r u ⟨hu, hothers⟩
  rcases hu with hu | ⟨hr, hmore, hsize⟩
  · refine hu.resolve.imp_right fun hg' => .inl ⟨(hG hg').1, ?_⟩
    rw [sizeAt_congr (hothers dp (hne hg').symm)]
    exact (hG hg').2
  · obtain ⟨hbefore, hold⟩ := hheld hmore
    exact .inr (.inr ⟨hr, n, hbefore, hold ▸ hsize⟩)

end

/-! ## Links -/

omit hg in
lemma Leads.disk {α : Type} {p : Prog α} {P : α → State → Prop}
    (h : Leads (Vfs.onDisk p) s P) : p.Leads s.disk fun a d => P a { s with disk := d } := by
  intro a d hrun
  refine h a { s with disk := d } ?_
  rw [Vfs.onDisk, hrun]

omit hg in
lemma Leads.onDisk_andThen {α β : Type} {p : Prog (Option α)} {f : α → Prog (Option β)}
    {P : Option α → State → Prop} {Q : Option β → State → Prop}
    (hp : Leads (Vfs.onDisk p) s P) (hnone : ∀ t, P none t → Q none t)
    (hsome : ∀ a t, P (some a) t → Leads (Vfs.onDisk (f a)) t Q) :
    Leads (Vfs.onDisk (p.andThen f)) s Q :=
  Leads.onDisk (Prog.Leads.andThen (Leads.disk hp) (fun _ h => hnone _ h)
    fun a _ h => Leads.disk (hsome a _ h))

lemma dirlink_coherent (h : Coherent v mine skip s)
    (hn : Marked v (v.bytes s.disk) dp true) (hx : inodeAt v (v.bytes s.disk) dp = some x)
    (name : List UInt8) (inum : Nat) (type : UInt8) :
    Leads (onDisk (dirlink v dp name inum type)) s fun _ t => t.cache = s.cache ∧
      Coherent v mine (fun k => skip k ∨ k = dp) t ∧
      ∃ y, Inserted v mine dp s.disk x t.disk y := by
  refine Leads.onDisk fun r d hrun => ?_
  obtain ⟨y, hy⟩ := dirlink_inserted hg (h.placed.live hn hx) hx name inum type r d hrun
  refine ⟨rfl, h.tidy hg hy.tidy (h.placed.tidy hg hy.tidy fun _ z hz => ?_), y, hy⟩
  rw [hy.read] at hz
  cases hz
  exact hy.live.sited

lemma release_coherent (hne : n ≠ dp)
    (h : Coherent v mine (fun k => k = dp) t) (hc : t.cache dp = some e)
    (href : e.ref = (s.entry dp).ref) (hlinked : e.nlink ≠ 0)
    (hsize : sizeAt v t.disk dp = sizeAt v s.disk dp → Matches v (v.bytes t.disk) dp e)
    (b : Bool) :
    Leads (do
      iput v dp
      iput v n
      pure b) t fun _ u => Agreeing v mine u ∨ Outgrown v s u dp := by
  refine (iput_parent (s := s) hg h hc href (fun hz => absurd hz hlinked) hsize).bind ?_
  rintro _ t1 ⟨ht1, -⟩
  refine (iput_agreeing hg ht1 fun hk => hne hk.1).bind ?_
  rintro _ u ⟨hu, hrel⟩
  refine .pure (hu.resolve.imp_right fun hout => ⟨hout.1, ?_⟩)
  rw [sizeAt_congr (hrel.inodes dp hne.symm)]
  exact hout.2

/-- An entry whose link count is `nlink` now. -/
def Cached.relink (e : Cached) (nlink : Nat) : Cached :=
  { e with info := { e.info with nlink := nlink }, nlink := nlink }

lemma linked_coherent (h : Agreeing v mine s) (hne : n ≠ dp)
    (hc : s.cache n = some e) (hv : e.valid) {p : Cached} (hcp : s.cache dp = some p)
    (hvp : p.valid) (hlinked : p.nlink ≠ 0) (hmax : e.info.nlink + 1 < 2 ^ 16)
    (name : List UInt8) :
    Leads (do
      let r ← onDisk ((writeInode v n (e.relink (e.info.nlink + 1)).info).andThen fun _ =>
        dirlink v dp name n DIRTYPE_REG)
      if r.isNone then do
        let s ← get
        let info := { (s.entry n).info with nlink := (s.entry n).info.nlink - 1 }
        setEntry n { s.entry n with info := info, nlink := info.nlink }
        let _ ← onDisk (writeInode v n info)
        pure ()
      iput v dp
      iput v n
      pure r.isSome) (s.put n (some (e.relink (e.info.nlink + 1)))) fun _ u =>
        Agreeing v mine u ∨ Outgrown v s u dp := by
  have hl := h.live id hc hv
  obtain ⟨z, hz, hsame, hsize, -, hmode⟩ := h.agrees n e id hc hv
  obtain ⟨x, hx, hpmatch⟩ := h.agrees dp p id hcp hvp
  have hdp := h.used dp p hcp
  have hesize : e.size = e.info.size := hsize.trans hsame.size.symm
  have hemode : e.mode = e.info.mode &&& 0o7777 := hmode.trans (by rw [hsame.mode])
  refine .bind (P := fun _ t => t.cache = (s.put n (some (e.relink (e.info.nlink + 1)))).cache ∧
    Coherent v mine (fun k => k = dp) t ∧ (sizeAt v t.disk dp = sizeAt v s.disk dp →
      inodeAt v (v.bytes t.disk) dp = some x)) ?_ ?_
  · refine Vfs.Leads.onDisk_andThen (entry_coherent hg h hl.marked
      (hl.sited.pointers (fun _ _ => rfl) rfl) (hl.typed.relink hmax) hesize rfl hemode) ?_ ?_
    · rintro t ⟨hfail, -⟩
      cases hfail
    rintro _ t ⟨-, ht, hcache, htidy, -⟩
    have hx' : inodeAt v (v.bytes t.disk) dp = some x :=
      (htidy.confined.inodeAt hg hne.symm).trans hx
    refine (dirlink_coherent hg ht ((htidy.marked dp true).mpr hdp) hx' name n _).mono ?_
    rintro r u ⟨hcu, hu, y, hy⟩
    refine ⟨hcu.trans hcache, hu.mono fun k hk => hk.resolve_left id, fun hs => ?_⟩
    rw [sizeAt_some hx, sizeAt_some hy.read] at hs
    rcases hy.grew with heq | hlt
    · exact heq ▸ hy.read
    · exact absurd (some.inj hs) (ne_of_gt hlt)
  rintro r t ⟨hcache, ht, hgrew⟩
  have hcn : t.cache n = some (e.relink (e.info.nlink + 1)) := by rw [hcache, cache_put, if_pos rfl]
  have hcd : t.cache dp = some p := by rw [hcache, cache_put, if_neg hne.symm, hcp]
  have href : p.ref = (s.entry dp).ref := by rw [entry_of_cache hcp]
  split
  · refine .get ?_
    rw [entry_of_cache hcn]
    have hl' := ht.live hne hcn hv
    refine update_coherent (e := e.relink (e.info.nlink + 1 - 1)) hg ht hl'.marked ?_ ?_ hesize
      rfl hemode ?_
    · exact hl'.sited.pointers (fun _ _ => rfl) rfl
    · exact hl.typed.relink (by omega)
    intro u hu hcu htidy _
    have hi := htidy.confined.inodeAt hg hne.symm
    refine release_coherent hg hne hu ?_ href hlinked (fun hs => ?_) _
    · rw [hcu, cache_put, if_neg hne.symm, hcd]
    · exact ⟨x, hi.trans (hgrew ((sizeAt_congr hi).symm.trans hs)), hpmatch⟩
  · exact release_coherent hg hne ht hcd href hlinked (fun hs => ⟨x, hgrew hs, hpmatch⟩) _

lemma sysLink_coherent (h : Agreeing v mine s) (hn : Named v s.disk n)
    (hdp : Named v s.disk dp) (hne : n ≠ dp) (cred : Cred) (name : List UInt8) :
    Leads (sysLink v cred n dp name) s fun _ t => Agreeing v mine t ∨ Resized v s t dp := by
  refine hold_coherent h hn.usable ?_
  intro t e ht hdisk hc hv _ hothers
  refine .get ?_
  split
  · exact (iput_agreeing hg ht id).bind fun _ u hu => .pure (.inl hu.1)
  refine hold_coherent ht (hdisk ▸ hdp.usable) ?_
  intro u p hu hdisk' hcp hvp hfirst hothers'
  have hcn : u.cache n = some e := (hothers' n hne).trans hc
  refine .get ?_
  split
  · exact (iput_agreeing hg hu id).bind fun _ w hw =>
      (iput_agreeing hg hw.1 id).bind fun _ w hw => .pure (.inl hw.1)
  next hok =>
  rw [entry_of_cache hcn] at hok ⊢
  obtain ⟨x, hx, -, -, hnlink, -⟩ := hu.agrees dp p id hcp hvp
  have hlinked : p.nlink ≠ 0 := by
    rw [hdisk', hdisk] at hx
    exact hnlink ▸ hdp.linked x hx
  have hl := hu.live id hcn hv
  have hlt := hl.typed.nlink
  refine .modify_bind
    ((linked_coherent hg hu hne hcn hv hcp hvp hlinked (by omega) name).mono ?_)
  rintro _ w (hw | hout)
  · exact .inl hw
  refine .inr ⟨fun hnone => ?_, ?_⟩
  · have hone := hfirst ((hothers dp hne.symm).trans hnone)
    have hmore := hout.1
    rw [entry_of_cache hcp, hone] at hmore
    exact absurd hmore (by decide)
  · rw [← hdisk, ← hdisk']
    exact hout.2

/-! ## Removing an entry -/

omit hg in
lemma isDirEmpty_reads (n : Nat) (d : Disk) : (isDirEmpty v n).Leads d fun _ d' => d' = d := by
  refine Prog.Leads.bind (P := fun _ d' => d' = d) ?_ fun _ _ h => .pure h
  refine Prog.Leads.andThen (P := fun _ d1 => d1 = d)
    (Prog.Ensures.of_run (readInode_run v n d) rfl).leads (fun _ h => h) ?_
  rintro x d1 rfl
  split
  · exact .pure rfl
  · exact scanDirectory_leads (fun _ _ _ _ => .pure rfl) (.pure rfl) rfl _ _

lemma unlink_coherent (h : Agreeing v mine s) (hc : s.cache n = some e)
    (hv : e.valid) (hx : inodeAt v (v.bytes s.disk) n = some y) (hsame : x.Same y)
    {β : Type} {f : Option Unit → Sys β} {Q : β → State → Prop}
    (hf : ∀ t, Agreeing v mine t → (∀ k ≠ n, t.cache k = s.cache k) → Leads (f (some ())) t Q) :
    Leads (do
      setEntry n { e with info := { x with nlink := x.nlink - 1 }, nlink := x.nlink - 1 }
      let r ← onDisk (writeInode v n { x with nlink := x.nlink - 1 })
      f r) s Q := by
  obtain ⟨z, hz, -, hsize, -, hmode⟩ := h.agrees n e id hc hv
  have hzy : z = y := some.inj (hz.symm.trans hx)
  subst hzy
  have hl := (h.placed.live (h.used n e hc) hx).copy hsame
  have hlt := hl.typed.nlink
  refine update_coherent
    (e := { e with info := { x with nlink := x.nlink - 1 }, nlink := x.nlink - 1 }) hg h hl.marked
    (hl.sited.pointers (fun _ _ => rfl) rfl) (hl.typed.relink (by omega))
    (hsize.trans hsame.size.symm) rfl (hmode.trans (by rw [hsame.mode])) fun t ht hcache _ _ =>
    hf t ht fun k hk => ?_
  rw [hcache, cache_put, if_neg hk]

lemma unlinkNode_coherent (h : Agreeing v mine s) (hne : n ≠ dp)
    (hc : s.cache n = some e) (hv : e.valid) {p : Cached} (hcp : s.cache dp = some p)
    (hvp : p.valid) (name : List UInt8) :
    Leads (unlinkNode v dp n name) s fun _ t => Agreeing v mine t := by
  refine .get ?_
  refine .bind (P := fun _ t => t = s) (Leads.onDisk fun b d hrun => ?_) ?_
  · rw [isDirEmpty_reads n s.disk b d hrun]
  rintro b t rfl
  split
  · exact .pure h
  refine .bind (P := fun _ u => Agreeing v mine u ∧ u.cache = t.cache)
    (Leads.onDisk fun r d hrun => ⟨?_, rfl⟩) ?_
  · have hq := dirunlink_data hg name
      (fun x hx => h.placed.sited dp x (h.used dp p hcp) hx) r d hrun
    exact h.data hg (hq.tidy hg h.placed.base)
  rintro r u ⟨hu, hcache⟩
  cases r with
  | none => exact .pure hu
  | some removed => ?_
  have hcn : u.cache n = some e := hcache ▸ hc
  have hcd : u.cache dp = some p := hcache ▸ hcp
  refine .get ?_
  split
  · exact .pure hu
  -- the last stage, after the parent has been dealt with
  have hend : ∀ (ok : Bool) w, Agreeing v mine w → w.cache n = some e → Leads (do
      let ok ← pure ok
      if ok then do
        let s ← get
        let info := { (s.entry n).info with nlink := (s.entry n).info.nlink - 1 }
        setEntry n { s.entry n with info := info, nlink := info.nlink }
        let r ← onDisk (writeInode v n info)
        pure r.isSome
      else pure false) w fun _ t => Agreeing v mine t := by
    intro ok w hw hcw
    refine .bind (P := fun _ t => t = w) (.pure rfl) ?_
    rintro ok t rfl
    split
    · refine .get ?_
      rw [entry_of_cache hcw]
      obtain ⟨y, hy, hsame, -⟩ := hw.agrees n e id hcw hv
      exact unlink_coherent hg hw hcw hv hy hsame fun t ht _ => .pure ht
    · exact .pure hw
  split
  · obtain ⟨y, hy, -⟩ := hu.agrees dp p id hcd hvp
    refine .bind_ok (onDisk_inode hy) ?_
    dsimp only
    split
    · exact hend false u hu hcn
    refine .get ?_
    rw [entry_of_cache hcd]
    exact unlink_coherent hg hu hcd hvp hy (.refl y) fun t ht hothers =>
      hend _ t ht ((hothers n hne).trans hcn)
  · exact hend true u hu hcn

lemma sysUnlink_coherent (h : Agreeing v mine s)
    (hdp : Usable v s.disk dp) (name : List UInt8)
    (hfound : ∀ n, (lookup v dp name).run s.disk = .ok (some n, s.disk) →
      Usable v s.disk n ∧ n ≠ dp) (cred : Cred) :
    Leads (sysUnlink v cred dp name) s fun _ t => Agreeing v mine t := by
  refine hold_coherent h hdp ?_
  intro t p ht hdisk hcp hvp _ _
  refine .get ?_
  split
  · exact (iput_agreeing hg ht id).bind fun _ u hu => .pure hu.1
  refine (dirlookup_leads name).bind ?_
  rintro r u ⟨hnone, hsome⟩
  cases r with
  | none =>
    cases hnone rfl
    exact (iput_agreeing hg ht id).bind fun _ u hu => .pure hu.1
  | some n => ?_
  obtain ⟨hrun, rfl⟩ := hsome n rfl
  rw [hdisk] at hrun
  obtain ⟨hu, hne⟩ := hfound n hrun
  rw [← hdisk] at hu
  have hc1 : (t.put n (some { t.entry n with ref := (t.entry n).ref + 1 })).cache n
      = some { t.entry n with ref := (t.entry n).ref + 1 } := by
    rw [cache_put, if_pos rfl]
  refine (ilock_coherent (ht.iget hu.1) hu hc1).bind ?_
  rintro _ w ⟨hw, e, rfl, hv, -⟩
  have hcn := State.cache_put
    (t.put n (some { t.entry n with ref := (t.entry n).ref + 1 })) n n (some e)
  rw [if_pos rfl] at hcn
  have hcd : ((t.put n (some { t.entry n with ref := (t.entry n).ref + 1 })).put n
      (some e)).cache dp = some p := by
    rw [cache_put, if_neg hne.symm, cache_put, if_neg hne.symm, hcp]
  refine (unlinkNode_coherent hg hw hne hcn hv hcd hvp name).bind ?_
  rintro ok w hw
  split
  · exact (iput_agreeing hg hw id).bind fun _ w hw =>
      (iput_agreeing hg hw.1 id).bind fun _ w hw => .pure hw.1
  exact (iput_agreeing hg hw id).bind fun _ w hw =>
    (iput_agreeing hg hw.1 id).bind fun _ w hw => .pure hw.1

end

end Proninx.Vfs
