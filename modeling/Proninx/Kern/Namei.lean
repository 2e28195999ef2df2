import Mathlib.Data.List.TakeWhile
import Proninx.Kern.Tenant
import Proninx.Kern.Tree

/-!
# Path resolution

`namei` against the lookup of one component after the other. The loop of
`namex` ends where `skipelem` returns 0, which is the end of the path or a
component that is too long: what `namei` resolves is the path up to the
first such component, and it fails only if one before it does.
`nameiparent` takes the same signal for a failure.
-/

namespace Proninx.Fs

open Bool ByteMem List Nat Native Paths Prod State Stateful Ufs2

variable (mnt : Mount)

/-! ## Component by component -/

/-- The longest name a directory of the file system can have. -/
def nameLimit (n : Node) : Nat :=
  match mnt.volume n.dev with
  | some _ => MAXNAMLEN
  | none => DIRSIZ

/-- A directory that the process may search. -/
def searchable (disk : Nat → Disk) (cred : Cred) (n : Node) : Bool :=
  match inodeOf mnt disk n with
  | some e => e.type == T_DIR && inodeAccess cred e.fields 1
  | none => false

/-- The name can be looked up under `n`. -/
def admits (disk : Nat → Disk) (cred : Cred) (n : Node) (name : List UInt8) : Bool :=
  searchable mnt disk cred n && decide (name.length ≤ nameLimit mnt n)

/-- One component of a path. -/
def child (disk : Nat → Disk) (cred : Cred) (n : Node) (name : List UInt8) : Option Node :=
  if admits mnt disk cred n name then
    if name = dot then some n else (entryOf mnt disk n name).map fun m => ⟨n.dev, m⟩
  else none

/-- All components of a path. -/
def resolve (disk : Nat → Disk) (cred : Cred) (n : Node) (names : List (List UInt8)) :
    Option Node :=
  names.foldlM (child mnt disk cred) n

/-- All components but the last, with the last. -/
def resolveParent (disk : Nat → Disk) (cred : Cred) (n : Node) (names : List (List UInt8)) :
    Option (Node × List UInt8) := do
  let last ← names.getLast?
  let p ← resolve mnt disk cred n names.dropLast
  if admits mnt disk cred p last then some (p, last) else none

section Resolve

variable {mnt} {disk : Nat → Disk} {cred : Cred} {n : Node} {name : List UInt8}
  {names : List (List UInt8)}

lemma resolve_cons : resolve mnt disk cred n (name :: names)
    = (child mnt disk cred n name).bind fun p => resolve mnt disk cred p names :=
  foldlM_cons

lemma resolveParent_last : resolveParent mnt disk cred n [name]
    = if admits mnt disk cred n name then some (n, name) else none := rfl

lemma resolveParent_cons (h : names ≠ []) : resolveParent mnt disk cred n (name :: names)
    = (child mnt disk cred n name).bind fun p => resolveParent mnt disk cred p names := by
  obtain ⟨x, xs, rfl⟩ := exists_cons_of_ne_nil h
  unfold resolveParent
  rw [getLast?_cons_cons, dropLast_cons_cons, resolve_cons]
  cases List.getLast? (x :: xs) with
  | none => cases child mnt disk cred n name <;> rfl
  | some last => cases child mnt disk cred n name <;> rfl

lemma nameLimit_le (n : Node) : nameLimit mnt n ≤ MAXNAMLEN := by
  unfold nameLimit
  split <;> decide

lemma child_long (h : MAXNAMLEN < name.length) : child mnt disk cred n name = none := by
  have := @nameLimit_le mnt n
  unfold child admits
  rw [decide_eq_false (by omega), Bool.and_false]
  rfl

lemma admits_long (h : MAXNAMLEN < name.length) : admits mnt disk cred n name = false := by
  have := @nameLimit_le mnt n
  unfold admits
  rw [decide_eq_false (by omega), Bool.and_false]

/-- The components before the first one that is too long. -/
def shortNames (names : List (List UInt8)) : List (List UInt8) :=
  names.takeWhile fun name => name.length ≤ MAXNAMLEN

lemma shortNames_eq_self (h : ∀ name ∈ names, name.length ≤ MAXNAMLEN) : shortNames names = names :=
  takeWhile_eq_self_iff.mpr fun name hname => decide_eq_true (h name hname)

lemma resolve_long (h : ∃ name ∈ names, MAXNAMLEN < name.length) (n : Node) :
    resolve mnt disk cred n names = none := by
  induction names generalizing n with
  | nil => simp at h
  | cons name names ih => ?_
  rw [resolve_cons]
  obtain ⟨x, hx, hlong⟩ := h
  rcases mem_cons.mp hx with rfl | hx
  · rw [child_long hlong]
    rfl
  cases child mnt disk cred n name with
  | none => rfl
  | some p => exact ih ⟨x, hx, hlong⟩ p

end Resolve

/-! ## `skipelem` -/

lemma skipelem_eq (path : List UInt8) : skipelem path =
    match nextComponent slash path with
    | none => none
    | some (name, rest) => if MAXNAMLEN < name.length then none else some (name, rest) := by
  unfold skipelem nextComponent
  cases path.dropWhile (· == slash) with
  | nil => rfl
  | cons p ps => ?_
  rw [if_neg (cons_ne_nil _ _)]

lemma skipelem_none {path : List UInt8} (h : skipelem path = none) :
    components slash path = [] ∨ ∃ name rest, Next slash path name rest ∧
      MAXNAMLEN < name.length := by
  rw [skipelem_eq] at h
  cases hn : nextComponent slash path with
  | none => exact .inl (components_of_none hn)
  | some p => ?_
  rw [hn] at h
  dsimp only at h
  split at h
  · next hlong => exact .inr ⟨p.1, p.2, nextComponent_some hn, hlong⟩
  · cases h

lemma skipelem_some {path name rest : List UInt8} (h : skipelem path = some (name, rest)) :
    Next slash path name rest ∧ name.length ≤ MAXNAMLEN := by
  rw [skipelem_eq] at h
  cases hn : nextComponent slash path with
  | none => rw [hn] at h; cases h
  | some p => ?_
  rw [hn] at h
  dsimp only at h
  split at h
  · cases h
  next hlong =>
  cases h
  exact ⟨nextComponent_some hn, not_lt.mp hlong⟩

/-! ## The loop -/

/-- What a walk over the nodes of `T` needs to find. -/
structure Settled (T : Node → Prop) (s₀ : State) : Prop where
  tree : Tree mnt s₀.disk T
  steady : Steady mnt T s₀
  linked : Linked mnt T s₀
  room : ∃ a b, a ≠ b ∧ (s₀.slot a).ref = 0 ∧ (s₀.slot b).ref = 0

/-- A walk ends with a reference to what was looked for, or with none. -/
inductive Reached (T : Node → Prop) (s₀ t : State) : Option (Fin NINODE) → Option Node → Prop
  | found {k : Fin NINODE} {n : Node} (hn : (t.slot k).node = n) (h : Refs mnt T s₀ t [k]) :
      Reached T s₀ t (some k) (some n)
  | failed (h : Refs mnt T s₀ t []) : Reached T s₀ t none none

section Walk

variable {mnt} {T : Node → Prop} {s₀ s : State} {ip : Fin NINODE} {cred : Cred}

lemma admits_iff (hset : Settled mnt T s₀) {e g : Slot} {n : Node} {name : List UInt8}
    (hT : T n) (hg : inodeOf mnt s₀.disk n = some g) (hlike : Like e g)
    (hlen : name.length ≤ MAXNAMLEN) :
    (e.type ≠ T_DIR ∨ inodeAccess cred e.fields 1 = false ∨
      (e.fs ≠ .ufs2 ∧ DIRSIZ < name.length)) ↔ admits mnt s₀.disk cred n name = false := by
  have hload := inodeOf_some.mp hg
  have hdev := hset.tree.volume n hT
  unfold admits searchable nameLimit
  rw [hg, hlike.type, hlike.access, hlike.fs]
  cases hv : mnt.volume n.dev with
  | some v =>
    have hfs := load_ufs2 hdev hv hload
    grind
  | none => ?_
  have hfs : g.fs = .native := by
    rw [load_native hdev hv hload]
    rfl
  grind

lemma Settled.descend (hset : Settled mnt T s₀) (h : Refs mnt T s₀ s [ip])
    (hT : T (s.slot ip).node) {g : Slot} (hg : inodeOf mnt s₀.disk (s.slot ip).node = some g)
    (hlike : Like (s.slot ip) g) (htype : (s.slot ip).type = T_DIR) (name : List UInt8) :
    match entryOf mnt s₀.disk (s.slot ip).node name with
    | none => dirlookup mnt ip name s = .ok (none, s)
    | some m => T ⟨(s.slot ip).dev, m⟩ ∧ ∃ k t u, dirlookup mnt ip name s = .ok (some k, t) ∧
        iput mnt ip t = .ok ((), u) ∧ (u.slot k).node = ⟨(s.slot ip).dev, m⟩ ∧
        Refs mnt T s₀ u [k] := by
  have hlook := @dirlookup_eq mnt T s ip (h.disk ▸ hset.tree) g hT (h.disk ▸ hg) hlike htype name
  rw [h.disk] at hlook
  rw [hlook]
  cases he : entryOf mnt s₀.disk (s.slot ip).node name with
  | none => rfl
  | some m => ?_
  obtain ⟨k, t, hget, hnode, hsame, ht⟩ := h.iget (h.free hset.room) ⟨(s.slot ip).dev, m⟩
  obtain ⟨r, hr⟩ := hsame ip (h.ref_pos mem_cons_self)
  have hTip : T (t.slot ip).node := by
    rw [hr]
    exact hT
  obtain ⟨u, hput, hkeep, hu⟩ := ht.swap.iput hset.tree hset.linked hTip
  refine ⟨hset.tree.closed _ name m hT ⟨g, hg, hlike.type ▸ htype⟩ he, k, t, u, ?_, hput,
    (hkeep k).trans hnode, hu⟩
  exact bind_of_ok (f := fun j => pure (some j)) hget

lemma searchable_isDir {disk : Nat → Disk} {n : Node}
    (h : searchable mnt disk cred n) : IsDir mnt disk n := by
  unfold searchable at h
  split at h
  · next e he =>
    rw [and_eq_true, beq_iff_eq] at h
    exact ⟨e, he, h.1⟩
  · cases h

lemma Tree.resolve_mem {disk : Nat → Disk} (htree : Tree mnt disk T) (names : List (List UInt8)) :
    ∀ {n m : Node}, T n → resolve mnt disk cred n names = some m → T m := by
  induction names with
  | nil =>
    rintro n _ hT ⟨⟩
    exact hT
  | cons name names ih => ?_
  intro n m hT h
  rw [resolve_cons] at h
  obtain ⟨p, hp, h⟩ := Option.bind_eq_some_iff.mp h
  refine ih ?_ h
  unfold child at hp
  split at hp
  · next hadm =>
    split at hp
    · cases hp
      exact hT
    obtain ⟨q, hq, rfl⟩ := Option.map_eq_some_iff.mp hp
    exact htree.closed n name q hT (searchable_isDir (Bool.and_eq_true_iff.mp hadm).1) hq
  · cases hp

variable (mnt T s₀) in
/-- A run that returns no inode and gives back its references. -/
def Fails (x : Except Stop (Option (Fin NINODE × List UInt8) × State)) : Prop :=
  ∃ t, x = .ok (none, t) ∧ Refs mnt T s₀ t []

variable (mnt T s₀) in
/-- A run that goes on like `rest` in a slot of `m`. -/
def GoesOn (x : Except Stop (Option (Fin NINODE × List UInt8) × State)) (m : Node)
    (rest : Fin NINODE → Sys (Option (Fin NINODE × List UInt8))) : Prop :=
  T m ∧ ∃ k u, x = rest k u ∧ (u.slot k).node = m ∧ Refs mnt T s₀ u [k]

variable (mnt T s₀) in
/-- `.` is an entry of every directory, and names it. -/
def Dotted : Prop :=
  ∀ n, T n → IsDir mnt s₀.disk n → entryOf mnt s₀.disk n dot = some n.inum

lemma child_eq (hdot : Dotted mnt T s₀) {n : Node} (hT : T n) (hdir : IsDir mnt s₀.disk n)
    {name : List UInt8} (hadm : admits mnt s₀.disk cred n name) :
    child mnt s₀.disk cred n name = (entryOf mnt s₀.disk n name).map fun m => ⟨n.dev, m⟩ := by
  unfold child
  rw [if_pos hadm]
  split
  · next hname =>
    rw [hname, hdot n hT hdir]
    rfl
  · rfl

lemma Settled.turn (hset : Settled mnt T s₀) {parent : Bool}
    (hdot : parent → Dotted mnt T s₀) {path name rest nm : List UInt8} {fuel : Nat}
    (hskip : skipelem path = some (name, rest)) (h : Refs mnt T s₀ s [ip])
    (hT : T (s.slot ip).node) :
    if parent ∧ rest = [] then
      if admits mnt s₀.disk cred (s.slot ip).node name then
        GoesOn mnt T s₀ (walk mnt cred parent (fuel + 1) ip path nm s) (s.slot ip).node
          fun k => pure (some (k, name))
      else Fails mnt T s₀ (walk mnt cred parent (fuel + 1) ip path nm s)
    else
      (child mnt s₀.disk cred (s.slot ip).node name).elim
        (Fails mnt T s₀ (walk mnt cred parent (fuel + 1) ip path nm s))
        fun m => GoesOn mnt T s₀ (walk mnt cred parent (fuel + 1) ip path nm s) m
          fun k => walk mnt cred parent fuel k rest name := by
  obtain ⟨e, g, hlock, hk, hg, hlike, h'⟩ := h.ilock hset.tree (h.ref_pos mem_cons_self) hT
  have hlen := (skipelem_some hskip).2
  have hnode : ((s.set ip e).slot ip).node = (s.slot ip).node := by rw [set_slot, hk.node]
  generalize hrun : walk mnt cred parent (fuel + 1) ip path nm s = r
  rw [walk, hskip] at hrun
  dsimp only at hrun
  rw [bind_of_ok hlock, get_bind, set_slot] at hrun
  have hT' : T ((s.set ip e).slot ip).node := by
    rw [hnode]
    exact hT
  cases hadm : admits mnt s₀.disk cred (s.slot ip).node name with
  | false =>
    have hfail : Fails mnt T s₀ r := by
      rw [← hrun, if_pos ((admits_iff hset hT hg hlike hlen).mpr hadm)]
      obtain ⟨t, hput, -, ht⟩ := h'.iput hset.tree hset.linked hT'
      exact ⟨t, bind_of_ok (f := fun _ => pure none) hput, ht⟩
    have hchild : child mnt s₀.disk cred (s.slot ip).node name = none := by
      rw [child, hadm]
      rfl
    rw [hchild]
    split
    · exact hfail
    · exact hfail
  | true => ?_
  have hpass := mt (admits_iff hset hT hg hlike hlen).mp (by rw [hadm]; decide)
  rw [if_neg hpass] at hrun
  have htype : e.type = T_DIR := by
    by_contra hc
    exact hpass (.inl hc)
  have hdir : IsDir mnt s₀.disk (s.slot ip).node := ⟨g, hg, hlike.type ▸ htype⟩
  split
  · next hlast =>
    obtain ⟨rfl, rfl⟩ := hlast
    rw [if_pos rfl]
    refine ⟨hT, ip, _, ?_, hnode, h'⟩
    rw [← hrun]
    rfl
  next hlast =>
  by_cases hd : parent = false ∧ name = dot
  · obtain ⟨rfl, rfl⟩ := hd
    have hchild : child mnt s₀.disk cred (s.slot ip).node dot = some (s.slot ip).node := by
      rw [child, hadm]
      rfl
    rw [hchild]
    exact ⟨hT, ip, _, hrun.symm, hnode, h'⟩
  have hchild : child mnt s₀.disk cred (s.slot ip).node name
      = (entryOf mnt s₀.disk (s.slot ip).node name).map fun m => ⟨(s.slot ip).dev, m⟩ := by
    cases parent with
    | true => exact child_eq (hdot rfl) hT hdir hadm
    | false => ?_
    rw [child, hadm, if_pos rfl, if_neg fun hc => hd ⟨rfl, hc⟩]
    rfl
  rw [if_neg (by simpa using fun hp hc => hd ⟨hp, hc⟩),
    if_neg (by simpa using fun hp hc => hlast ⟨hp, hc⟩)] at hrun
  have hdesc := hset.descend h' hT' (hnode ▸ hg) (by rwa [set_slot]) (by rwa [set_slot]) name
  rw [hnode] at hdesc
  rw [hchild]
  cases hentry : entryOf mnt s₀.disk (s.slot ip).node name with
  | none =>
    rw [hentry] at hdesc
    obtain ⟨t, hput, -, ht⟩ := h'.iput hset.tree hset.linked hT'
    refine ⟨t, ?_, ht⟩
    rw [← hrun, bind_of_ok hdesc]
    exact bind_of_ok (f := fun _ => pure none) hput
  | some m => ?_
  rw [hentry] at hdesc
  obtain ⟨hTm, k, t, u, hlook, hput, hkm, hu⟩ := hdesc
  have hdev : ((s.set ip e).slot ip).dev = (s.slot ip).dev := congrArg Node.dev hnode
  rw [hdev] at hTm hkm
  refine ⟨hTm, k, u, ?_, hkm, hu⟩
  rw [← hrun, bind_of_ok hlook]
  exact bind_of_ok hput

lemma Settled.walk_namei (hset : Settled mnt T s₀) (fuel : Nat) :
    ∀ {s : State} {ip : Fin NINODE} {path nm : List UInt8}, path.length < fuel →
      Refs mnt T s₀ s [ip] → T (s.slot ip).node →
      ∃ r t, walk mnt cred false fuel ip path nm s = .ok (r, t) ∧
        Reached mnt T s₀ t (r.map fst) (resolve mnt s₀.disk cred (s.slot ip).node
          (shortNames (components slash path))) := by
  induction fuel with
  | zero => exact fun hlt => absurd hlt (Nat.not_lt_zero _)
  | succ fuel ih => ?_
  intro s ip path nm hlt h hT
  cases hskip : skipelem path with
  | none =>
    have hshort : shortNames (components slash path) = [] := by
      rcases skipelem_none hskip with hnil | ⟨name, rest, hnext, hlong⟩
      · rw [hnil]
        rfl
      rw [hnext.split]
      exact takeWhile_cons_of_neg (by simpa using hlong)
    rw [hshort, walk, hskip]
    exact ⟨_, s, rfl, .found rfl h⟩
  | some p => ?_
  obtain ⟨name, rest⟩ := p
  obtain ⟨hnext, hlen⟩ := skipelem_some hskip
  have hturn := @Settled.turn mnt T s₀ s ip cred hset false nofun path name rest nm fuel hskip h hT
  rw [if_neg fun hc => absurd hc.1 Bool.false_ne_true] at hturn
  rw [hnext.split, shortNames, takeWhile_cons_of_pos (by simpa using hlen), resolve_cons]
  cases hchild : child mnt s₀.disk cred (s.slot ip).node name with
  | none =>
    rw [hchild] at hturn
    obtain ⟨t, hrun, ht⟩ := hturn
    exact ⟨_, t, hrun, .failed ht⟩
  | some m => ?_
  rw [hchild] at hturn
  obtain ⟨hTm, k, u, hrun, rfl, hu⟩ := hturn
  rw [hrun]
  exact ih (lt_of_lt_of_le hnext.shorter (le_of_lt_succ hlt)) hu hTm

lemma Settled.walk_nameiparent (hset : Settled mnt T s₀) (hdot : Dotted mnt T s₀)
    (fuel : Nat) : ∀ {s : State} {ip : Fin NINODE} {path nm : List UInt8}, path.length < fuel →
      Refs mnt T s₀ s [ip] → T (s.slot ip).node →
      ∃ r t, walk mnt cred true fuel ip path nm s = .ok (r, t) ∧ Reached mnt T s₀ t (r.map fst)
          ((resolveParent mnt s₀.disk cred (s.slot ip).node (components slash path)).map fst) ∧
        r.map snd = (resolveParent mnt s₀.disk cred (s.slot ip).node
          (components slash path)).map snd := by
  induction fuel with
  | zero => exact fun hlt => absurd hlt (Nat.not_lt_zero _)
  | succ fuel ih => ?_
  intro s ip path nm hlt h hT
  cases hskip : skipelem path with
  | none =>
    have hnone : resolveParent mnt s₀.disk cred (s.slot ip).node (components slash path)
        = none := by
      rcases skipelem_none hskip with hnil | ⟨name, rest, hnext, hlong⟩
      · rw [hnil]
        rfl
      rw [hnext.split]
      by_cases hrest : components slash rest = []
      · rw [hrest, resolveParent_last, admits_long hlong]
        rfl
      rw [resolveParent_cons hrest, child_long hlong]
      rfl
    obtain ⟨t, hput, -, ht⟩ := h.iput hset.tree hset.linked hT
    rw [hnone, walk, hskip]
    exact ⟨none, t, bind_of_ok (f := fun _ => pure none) hput, .failed ht, rfl⟩
  | some p => ?_
  obtain ⟨name, rest⟩ := p
  obtain ⟨hnext, hlen⟩ := skipelem_some hskip
  have hturn := @Settled.turn mnt T s₀ s ip cred hset true (fun _ => hdot) path name rest
    nm fuel hskip h hT
  rw [hnext.split]
  by_cases hrest : components slash rest = []
  · rw [if_pos ⟨rfl, hnext.last hrest⟩] at hturn
    rw [hrest, resolveParent_last]
    split at hturn
    · next hadm =>
      obtain ⟨-, k, u, hrun, hk, hu⟩ := hturn
      rw [if_pos hadm, hrun]
      exact ⟨_, u, rfl, .found hk hu, rfl⟩
    next hadm =>
    obtain ⟨t, hrun, ht⟩ := hturn
    rw [if_neg hadm]
    exact ⟨_, t, hrun, .failed ht, rfl⟩
  rw [if_neg fun hc => hrest (by rw [hc.2]; rfl)] at hturn
  rw [resolveParent_cons hrest]
  cases hchild : child mnt s₀.disk cred (s.slot ip).node name with
  | none =>
    rw [hchild] at hturn
    obtain ⟨t, hrun, ht⟩ := hturn
    exact ⟨_, t, hrun, .failed ht, rfl⟩
  | some m => ?_
  rw [hchild] at hturn
  obtain ⟨hTm, k, u, hrun, rfl, hu⟩ := hturn
  rw [hrun]
  exact ih (lt_of_lt_of_le hnext.shorter (le_of_lt_succ hlt)) hu hTm

end Walk

/-! ## `namei` and `nameiparent` -/

/-- Where `namex` starts, and the path it follows from there. -/
def origin (s : State) (task : Task) (path : List UInt8) : Node × List UInt8 :=
  if ofList path 0 = slash then
    match dataNamespace mnt path with
    | some path => (⟨FNU_DATA_DEVICE, ROOT_INO⟩, path)
    | none => (⟨ROOTDEV, ROOTINO⟩, path)
  else ((s.slot task.cwd).node, path)

/-- The process has a reference to its current directory. -/
def Task.Attached (task : Task) (s : State) : Prop := 0 < (s.slot task.cwd).ref

section Namei

variable {mnt} {T : Node → Prop} {s : State} {task : Task} {path : List UInt8}

lemma Settled.startOf (hset : Settled mnt T s) (hcwd : task.Attached s) :
    ∃ ip t, startOf mnt task path s = .ok ((ip, (origin mnt s task path).2), t) ∧
      (t.slot ip).node = (origin mnt s task path).1 ∧ Refs mnt T s t [ip] := by
  have hrefl := Refs.refl hset.steady
  obtain ⟨a, -, -, ha, -⟩ := hset.room
  unfold Fs.startOf origin
  split
  · cases dataNamespace mnt path with
    | some p =>
      obtain ⟨k, t, hget, hnode, -, ht⟩ := hrefl.iget ⟨a, ha⟩ ⟨FNU_DATA_DEVICE, ROOT_INO⟩
      exact ⟨k, t, bind_of_ok (f := fun ip => pure (ip, p)) hget, hnode, ht⟩
    | none => ?_
    obtain ⟨k, t, hget, hnode, -, ht⟩ := hrefl.iget ⟨a, ha⟩ ⟨ROOTDEV, ROOTINO⟩
    exact ⟨k, t, bind_of_ok (f := fun ip => pure (ip, path)) hget, hnode, ht⟩
  · refine ⟨task.cwd, _, rfl, ?_, hrefl.iget_cached hcwd⟩
    rw [set_slot]
    rfl

lemma Settled.namei_run (hset : Settled mnt T s) (hcwd : task.Attached s)
    (hdev : devfsPath path = 0) (hT : T (origin mnt s task path).1) :
    ∃ r t, namei mnt task path s = .ok (r, t) ∧
      Reached mnt T s t r (resolve mnt s.disk task.cred (origin mnt s task path).1
        (shortNames (components slash (origin mnt s task path).2))) := by
  obtain ⟨ip, t, hstart, hnode, ht⟩ := @Settled.startOf mnt T s task path hset hcwd
  obtain ⟨r, u, hwalk, hreach⟩ := @Settled.walk_namei mnt T s task.cred hset
    ((origin mnt s task path).2.length + 1) t ip (origin mnt s task path).2 []
    (lt_succ_self _) ht (hnode ▸ hT)
  refine ⟨r.map fst, u, ?_, hnode ▸ hreach⟩
  have hnamex : namex mnt task path false s = .ok (r, u) := by
    unfold namex
    rw [hdev, if_neg (by decide), bind_of_ok hstart]
    exact hwalk
  exact bind_of_ok (f := fun r => pure (r.map fst)) hnamex

lemma Settled.nameiparent_run (hset : Settled mnt T s) (hdot : Dotted mnt T s)
    (hcwd : task.Attached s) (hT : T (origin mnt s task path).1) :
    ∃ r t, nameiparent mnt task path s = .ok (r, t) ∧
      Reached mnt T s t (r.map fst) ((resolveParent mnt s.disk task.cred
        (origin mnt s task path).1 (components slash (origin mnt s task path).2)).map fst) ∧
      r.map snd = (resolveParent mnt s.disk task.cred (origin mnt s task path).1
        (components slash (origin mnt s task path).2)).map snd := by
  obtain ⟨ip, t, hstart, hnode, ht⟩ := @Settled.startOf mnt T s task path hset hcwd
  obtain ⟨r, u, hwalk, hreach⟩ := @Settled.walk_nameiparent mnt T s task.cred hset hdot
    ((origin mnt s task path).2.length + 1) t ip (origin mnt s task path).2 []
    (lt_succ_self _) ht (hnode ▸ hT)
  refine ⟨r, u, ?_, hnode ▸ hreach⟩
  unfold nameiparent namex
  rw [if_neg (by simp), bind_of_ok hstart]
  exact hwalk

variable (mnt) in
/-- A path that no virtual name shadows. -/
def Plain (path : List UInt8) : Prop :=
  devfsPath path = 0 ∧ (ofList path 0 = slash → dataNamespace mnt path = none)

/-- The directory a path is relative to. -/
def startNode (s : State) (task : Task) (path : List UInt8) : Node :=
  if ofList path 0 = slash then ⟨ROOTDEV, ROOTINO⟩ else (s.slot task.cwd).node

lemma origin_plain (h : Plain mnt path) :
    origin mnt s task path = (startNode s task path, path) := by
  unfold origin startNode
  split
  · next habs => rw [h.2 habs]
  · rfl

/-- The run returns a slot of the node. -/
def Returns (x : Except Stop (Option (Fin NINODE) × State)) (n : Option Node) : Prop :=
  ∃ r t, x = .ok (r, t) ∧ r.map (fun i => (t.slot i).node) = n

/-- The run returns a slot of the node, and the name. -/
def ReturnsWith (x : Except Stop (Option (Fin NINODE × List UInt8) × State))
    (n : Option (Node × List UInt8)) : Prop :=
  ∃ r t, x = .ok (r, t) ∧ r.map (fun p => ((t.slot p.1).node, p.2)) = n

lemma returns_iff {x : Except Stop (Option (Fin NINODE) × State)} {r : Option (Fin NINODE)}
    {t : State} {p q : Option Node} (hrun : x = .ok (r, t))
    (hnode : r.map (fun i => (t.slot i).node) = p) : Returns x q ↔ p = q := by
  subst hrun hnode
  exact ⟨fun ⟨_, _, h, hq⟩ => by cases h; exact hq, fun h => ⟨r, t, rfl, h⟩⟩

lemma Reached.node {t : State} {r : Option (Fin NINODE)} {n : Option Node}
    (h : Reached mnt T s t r n) : r.map (fun i => (t.slot i).node) = n := by
  cases h with
  | found hn _ => exact congrArg some hn
  | failed _ => rfl

lemma map_pair {α β γ : Type} {f : α → γ} {r : Option (α × β)} {q : Option (γ × β)}
    (hfst : r.map (fun p => f p.1) = q.map fst) (hsnd : r.map snd = q.map snd) :
    r.map (fun p => (f p.1, p.2)) = q := by
  cases r <;> cases q <;> simp_all

/-- `namei` finds what the lookup of one component after the other finds,
exactly when no component is longer than 255 bytes or one before the first
such component leads nowhere. `nameiparent` always does. -/
theorem namei_resolves (hset : Settled mnt T s) (hdot : Dotted mnt T s) (hcwd : task.Attached s)
    (hplain : Plain mnt path) (hT : T (startNode s task path)) :
    (Returns (namei mnt task path s) (resolve mnt s.disk task.cred (startNode s task path)
        (components slash path)) ↔
      (∀ name ∈ components slash path, name.length ≤ MAXNAMLEN) ∨
        resolve mnt s.disk task.cred (startNode s task path)
          (shortNames (components slash path)) = none) ∧
    ReturnsWith (nameiparent mnt task path s) (resolveParent mnt s.disk task.cred
      (startNode s task path) (components slash path)) := by
  have horigin := @origin_plain mnt s task path hplain
  constructor
  · obtain ⟨r, t, hrun, hreach⟩ := @Settled.namei_run mnt T s task path hset hcwd hplain.1
      (by rw [horigin]; exact hT)
    rw [horigin] at hreach
    rw [returns_iff hrun hreach.node]
    by_cases hshort : ∀ name ∈ components slash path, name.length ≤ MAXNAMLEN
    · rw [shortNames_eq_self hshort]
      exact iff_of_true rfl (.inl hshort)
    have hlong : ∃ name ∈ components slash path, MAXNAMLEN < name.length := by
      simpa using hshort
    rw [resolve_long hlong]
    exact ⟨.inr, fun h => h.resolve_left hshort⟩
  · obtain ⟨r, t, hrun, hreach, hname⟩ := @Settled.nameiparent_run mnt T s task path hset hdot hcwd
      (by rw [horigin]; exact hT)
    rw [horigin] at hreach hname
    refine ⟨r, t, hrun, ?_⟩
    exact map_pair (f := fun i => (t.slot i).node) ((Option.map_map ..).symm.trans hreach.node) hname

end Namei

/-! ## A small tree -/

/-- A native disk with one directory, the root, of one block, and files. -/
structure Flat (sb : Superblock) (d : Disk) (files : List Nat) : Prop where
  root : (dinodeAt sb d ROOTINO).type = T_DIR ∧ (dinodeAt sb d ROOTINO).nlink ≠ 0
  size : (dinodeAt sb d ROOTINO).size % DIRENT_SIZE = 0 ∧ (dinodeAt sb d ROOTINO).size ≤ BSIZE
  block : (dinodeAt sb d ROOTINO).addrs 0 ≠ 0
  entries : ∀ k ∈ range ((dinodeAt sb d ROOTINO).size / DIRENT_SIZE),
    (hit d (dinodeAt sb d ROOTINO) k).1 ∈ [0, ROOTINO] ++ files
  files : ∀ n ∈ files, (dinodeAt sb d n).type = T_FILE ∧ (dinodeAt sb d n).nlink ≠ 0

def FlatNode (files : List Nat) (n : Node) : Prop :=
  n = ⟨ROOTDEV, ROOTINO⟩ ∨ ∃ m ∈ files, n = ⟨ROOTDEV, m⟩

section Flat

variable {mnt} {d : Disk} {files : List Nat} {n : Node}

lemma inodeOf_native (hv : mnt.volume ROOTDEV = none) {m : Nat}
    (ht : (dinodeAt mnt.sb d m).type ≠ 0) : inodeOf mnt (fun _ => d) ⟨ROOTDEV, m⟩
      = some ((Slot.zero.recycle ROOTDEV m).loadNative (dinodeAt mnt.sb d m)) := by
  rw [inodeOf_some]
  unfold load
  rw [kind_of_ne (show ROOTDEV ≠ DEVFS_DEVICE by decide), hv]
  exact if_neg ht

section

variable (h : Flat mnt.sb d files)
include h

lemma Flat.inode (hv : mnt.volume ROOTDEV = none) (hn : FlatNode files n) :
    ∃ e, inodeOf mnt (fun _ => d) n = some e ∧ e.nlink ≠ 0 ∧
      (e.type = T_DIR → n = ⟨ROOTDEV, ROOTINO⟩) := by
  rcases hn with rfl | ⟨m, hm, rfl⟩
  · exact ⟨_, inodeOf_native hv (by rw [h.root.1]; decide), h.root.2, fun _ => rfl⟩
  obtain ⟨ht, hl⟩ := h.files m hm
  refine ⟨_, inodeOf_native hv (by rw [ht]; decide), hl, fun hdir => ?_⟩
  have hdir : (dinodeAt mnt.sb d m).type = T_DIR := hdir
  rw [ht] at hdir
  cases hdir

lemma Flat.dir (hv : mnt.volume ROOTDEV = none) (hn : FlatNode files n)
    (hdir : IsDir mnt (fun _ => d) n) : n = ⟨ROOTDEV, ROOTINO⟩ := by
  obtain ⟨e, he, -, hroot⟩ := h.inode hv hn
  obtain ⟨e', he', ht⟩ := hdir
  rw [he] at he'
  cases he'
  exact hroot ht

lemma Flat.whole : DirOk d (dinodeAt mnt.sb d ROOTINO) := by
  have hsize := h.size
  refine ⟨hsize.1, by unfold BSIZE at hsize; omega, fun off hoff => ?_⟩
  rw [div_eq_of_lt (by omega)]
  exact h.block

lemma Flat.tree (hv : mnt.volume ROOTDEV = none) : Tree mnt (fun _ => d) (FlatNode files) where
  volume := by
    rintro n (rfl | ⟨m, -, rfl⟩) <;> exact (by decide : ROOTDEV ≠ DEVFS_DEVICE)
  allocated n hn := by
    obtain ⟨e, he, -⟩ := h.inode hv hn
    exact ⟨e, he⟩
  whole n hn hdir _ := by
    cases h.dir hv hn hdir
    exact h.whole
  closed n name m hn hdir he := by
    cases h.dir hv hn hdir
    unfold entryOf at he
    rw [hv] at he
    obtain ⟨p, hp, rfl⟩ := Option.map_eq_some_iff.mp he
    obtain ⟨k, hk, rfl⟩ := Option.map_eq_some_iff.mp hp
    have hne : (hit d (dinodeAt mnt.sb d ROOTINO) k).1 ≠ 0 := by
      have := find?_some hk
      unfold entryIs at this
      rw [and_eq_true, bne_iff_ne] at this
      exact this.1
    have hmem := h.entries k (mem_of_find?_eq_some hk)
    simp only [cons_append, nil_append, mem_cons] at hmem
    rcases hmem with h0 | h1 | hf
    · exact absurd h0 hne
    · exact .inl (congrArg (Node.mk ROOTDEV) h1)
    · exact .inr ⟨_, hf, rfl⟩

lemma Flat.settled (hv : mnt.volume ROOTDEV = none) {s : State} (hdisk : s.disk = fun _ => d)
    (hvalid : ∀ i, (s.slot i).valid = false)
    (hroom : ∃ a b, a ≠ b ∧ (s.slot a).ref = 0 ∧ (s.slot b).ref = 0) :
    Settled mnt (FlatNode files) s where
  tree := hdisk ▸ h.tree hv
  steady i _ _ hval := absurd hval (by rw [hvalid]; exact false_ne_true)
  linked n hn := by
    obtain ⟨e, he, hl, -⟩ := h.inode hv hn
    exact .inl ⟨e, hdisk ▸ he, hl⟩
  room := hroom

end

end Flat

/-- The root has the entries `.`, `..` and `a`, which is a file. -/
def rootBlock : Block :=
  ofList ([1, 0, 46] ++ replicate 13 0 ++ [1, 0, 46, 46] ++ replicate 12 0 ++
    [2, 0, 97] ++ replicate 13 0)

def rootDinode : Dinode :=
  ⟨T_DIR, 0, 0, 1, 48, 0, 0, 0o755, fun i => if i = 0 then 10 else 0⟩

def fileDinode : Dinode := ⟨T_FILE, 0, 0, 1, 0, 0, 0, 0o644, fun _ => 0⟩

def smallDisk : Disk := fun b =>
  if b = 2 then encodeDinode (encodeDinode (fun _ => 0) 128 rootDinode) 256 fileDinode
  else if b = 10 then rootBlock
  else fun _ => 0

def userTask : Task := ⟨⟨1000, 100⟩, ⟨0, by decide⟩⟩

/-- The root directory is in use, and nothing else. -/
def rootCwd (d : Disk) : State :=
  (boot fun _ => d).set ⟨0, by decide⟩ (Slot.zero.recycle ROOTDEV ROOTINO)

lemma rootCwd_valid (d : Disk) (i : Fin NINODE) : ((rootCwd d).slot i).valid = false := by
  unfold rootCwd
  by_cases h0 : i = ⟨0, by decide⟩
  · subst h0
    rw [set_slot]
    rfl
  · rw [set_slot_ne h0]
    rfl

lemma rootCwd_free (d : Disk) {i : Fin NINODE} (h : i ≠ ⟨0, by decide⟩) :
    ((rootCwd d).slot i).ref = 0 := by
  unfold rootCwd
  rw [set_slot_ne h]
  rfl

lemma rootCwd_room (d : Disk) :
    ∃ a b, a ≠ b ∧ ((rootCwd d).slot a).ref = 0 ∧ ((rootCwd d).slot b).ref = 0 :=
  ⟨⟨1, by decide⟩, ⟨2, by decide⟩, by decide, rootCwd_free d (by decide), rootCwd_free d (by decide)⟩

lemma smallDisk_flat : Flat plainMount.sb smallDisk [2] := by
  constructor <;> decide +kernel

/-- The path `//./a/` leads to the file, and its parent is the root. -/
theorem namei_small :
    Returns (namei plainMount userTask (ascii "//./a/") (rootCwd smallDisk)) (some ⟨ROOTDEV, 2⟩) ∧
    ReturnsWith (nameiparent plainMount userTask (ascii "//./a/") (rootCwd smallDisk))
      (some (⟨ROOTDEV, ROOTINO⟩, ascii "a")) := by
  have hdot : Dotted plainMount (FlatNode [2]) (rootCwd smallDisk) := fun n hn hdir => by
    cases smallDisk_flat.dir rfl hn hdir
    decide +kernel
  have h := @namei_resolves plainMount (FlatNode [2]) (rootCwd smallDisk) userTask (ascii "//./a/")
    (smallDisk_flat.settled rfl rfl (rootCwd_valid _) (rootCwd_room _)) hdot Nat.one_pos
    ⟨by decide +kernel, fun _ => by decide +kernel⟩ (.inl rfl)
  have hresolve : resolve plainMount (rootCwd smallDisk).disk userTask.cred
      (startNode (rootCwd smallDisk) userTask (ascii "//./a/")) (components slash (ascii "//./a/"))
        = some ⟨ROOTDEV, 2⟩ := by decide +kernel
  have hparent : resolveParent plainMount (rootCwd smallDisk).disk userTask.cred
      (startNode (rootCwd smallDisk) userTask (ascii "//./a/")) (components slash (ascii "//./a/"))
        = some (⟨ROOTDEV, ROOTINO⟩, ascii "a") := by decide +kernel
  exact ⟨hresolve ▸ h.1.mpr (.inl (by decide +kernel)), hparent ▸ h.2⟩

/-- A component of 256 bytes ends the path: `namei` returns the directory
that should hold it, which has no such entry. -/
theorem namei_drops_long_name :
    (namei plainMount userTask (slash :: replicate 256 97) (rootCwd smallDisk)).map
      (fun p => p.1.map fun i => (p.2.slot i).node) = .ok (some ⟨ROOTDEV, ROOTINO⟩) ∧
    resolve plainMount (rootCwd smallDisk).disk userTask.cred ⟨ROOTDEV, ROOTINO⟩
      (components slash (slash :: replicate 256 97)) = none := by
  constructor <;> decide +kernel

end Proninx.Fs
