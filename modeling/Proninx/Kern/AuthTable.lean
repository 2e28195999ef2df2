import Proninx.Kern.Auth

/-!
# The account table over time

`auth_add_user` and `auth_set_password` change the table in memory and
store it in `/etc/passwd`; `auth_init` reads it back when the kernel
starts. A store that fails leaves the file as it was.
-/

namespace Proninx.Auth

open List Nat Option

/-- `auth_load`, of a file that holds a whole table or not. -/
def Table.load (t : Table) : Option (List Account) → Table
  | none => t
  | some accounts =>
    ⟨accounts, accounts.foldl
      (fun next a => if a.name ≠ [] ∧ next ≤ a.uid then (a.uid + 1) % 2 ^ 32 else next) 1002⟩

def Table.setsPassword (t : Table) (actor : Nat) (name password : List UInt8) (stored : Bool) :
    Bool :=
  validName name && validPassword password && stored &&
    match t.accounts.findIdx? fun a => !a.name.isEmpty && a.name == name with
    | none => false
    | some i => t.accounts[i]?.any fun a => actor == 0 || a.uid == actor

def Table.addsUser (t : Table) (name password : List UInt8) (stored : Bool) : Bool :=
  validName name && validPassword password && (t.findName name).isNone && stored &&
    (t.accounts.findIdx? fun a => a.name.isEmpty).isSome

structure System where
  table : Table
  file : Option (List Account)
  /-- The uids that `auth_add_user` gave out. -/
  handed : List Nat

/-- `stored`: whether `auth_store` succeeds. -/
inductive Op where
  | addUser (name password : List UInt8) (wheel stored : Bool)
  | setPassword (actor : Nat) (name password : List UInt8) (stored : Bool)
  /-- The kernel starts: `auth_init`. -/
  | init (stored : Bool)

variable (sha256 : List UInt8 → List UInt8)

def System.step (s : System) : Op → System
  | .addUser name password wheel stored =>
    let t := s.table.addUser sha256 name password wheel stored
    if s.table.addsUser name password stored then
      ⟨t, some t.accounts, s.table.nextUid :: s.handed⟩
    else { s with table := t }
  | .setPassword actor name password stored =>
    let t := s.table.setPassword sha256 actor name password stored
    if s.table.setsPassword actor name password stored then
      { s with table := t, file := some t.accounts }
    else { s with table := t }
  | .init stored =>
    let t := bootTable.load s.file
    { s with table := t, file := if stored then some t.accounts else s.file }

/-- From a kernel that has not been started yet. -/
def System.run (ops : List Op) : System := ops.foldl (System.step sha256) ⟨bootTable, none, []⟩

/-! ## What the operations do -/

/-- The names and uids of a table. -/
def ids (accounts : List Account) : List (List UInt8 × Nat) := accounts.map fun a => (a.name, a.uid)

section

variable (t : Table) (name password : List UInt8) (stored : Bool)

lemma setPassword_cases (actor : Nat) : t.setsPassword actor name password stored = false ∧
        t.setPassword sha256 actor name password stored = t ∨
      t.setsPassword actor name password stored ∧
        ∃ i a, t.accounts[i]? = some a ∧ a.name = name ∧ (actor = 0 ∨ actor = a.uid) ∧
        t.setPassword sha256 actor name password stored =
          { t with accounts :=
            t.accounts.set i { a with hash := passwordHash sha256 a.salt password } } := by
  unfold Table.setsPassword Table.setPassword
  by_cases hvalid : (validName name && validPassword password)
  swap
  · rw [if_neg hvalid]
    exact .inl ⟨by simp [hvalid], rfl⟩
  rw [if_pos hvalid, hvalid, Bool.true_and]
  cases hi : t.accounts.findIdx? fun a => !a.name.isEmpty && a.name == name with
  | none => exact .inl ⟨Bool.and_false _, rfl⟩
  | some i => ?_
  obtain ⟨hlt, hp, -⟩ := findIdx?_eq_some_iff_getElem.mp hi
  dsimp only
  rw [getElem?_eq_getElem hlt]
  dsimp only
  split_ifs with hrefused
  · refine .inl ⟨?_, rfl⟩
    obtain hactor | hstored := hrefused
    · simp [hactor.1, hactor.2]
    · simp [hstored]
  rw [not_or, not_and_or, not_not, not_not, Bool.not_eq_false] at hrefused
  obtain ⟨hactor, hstored⟩ := hrefused
  refine .inr ⟨by simpa [hstored] using hactor, i, t.accounts[i],
    getElem?_eq_getElem hlt, ?_, hactor.imp_right Eq.symm, rfl⟩
  simpa using (Bool.and_eq_true_iff.mp hp).2

lemma addUser_cases (wheel : Bool) : t.addsUser name password stored = false ∧
        t.addUser sha256 name password wheel stored = t ∨
      t.addsUser name password stored ∧ name ≠ [] ∧ t.findName name = none ∧
        ∃ i a, ∃ h : i < t.accounts.length, t.accounts[i].name = [] ∧ a.name = name ∧
          a.uid = t.nextUid ∧ t.addUser sha256 name password wheel stored =
            ⟨t.accounts.set i a, (t.nextUid + 1) % 2 ^ 32⟩ := by
  unfold Table.addsUser Table.addUser
  by_cases hvalid : (validName name && validPassword password && (t.findName name).isNone &&
      stored)
  swap
  · rw [if_neg hvalid]
    exact .inl ⟨by simp [hvalid], rfl⟩
  rw [if_pos hvalid, hvalid, Bool.true_and]
  split
  · next hnone => exact .inl ⟨by rw [hnone]; rfl, rfl⟩
  next i hi =>
  obtain ⟨hlt, hp, -⟩ := findIdx?_eq_some_iff_getElem.mp hi
  simp only [validName, Bool.and_eq_true, isNone_iff_eq_none] at hvalid
  refine .inr ⟨by rw [hi]; rfl, ?_, hvalid.1.2, i, _, hlt, isEmpty_iff.mp hp, rfl, rfl, rfl⟩
  rintro rfl
  simp at hvalid

end

/-! ## The invariant -/

/-- Two entries that are not both in use, or differ in name and uid. -/
def Apart (a b : List UInt8 × Nat) : Prop := a.1 ≠ [] → b.1 ≠ [] → a.1 ≠ b.1 ∧ a.2 ≠ b.2

instance (a b : List UInt8 × Nat) : Decidable (Apart a b) := by
  unfold Apart
  infer_instance

/-- Names and uids are distinct, and every uid is below the next one, which
is far from wrapping around as long as there are free entries. -/
structure Sound (l : List (List UInt8 × Nat)) (next : Nat) : Prop where
  apart : l.Pairwise Apart
  below : ∀ a ∈ l, a.1 ≠ [] → a.2 < next
  first : 1002 ≤ next
  room : next + l.countP (·.1.isEmpty) ≤ 1015

variable {sha256} {l : List (List UInt8 × Nat)} {name : List UInt8} {next uid i : Nat} {s : System}

lemma bootTable_sound : Sound (ids bootTable.accounts) bootTable.nextUid :=
  ⟨by decide, by decide, by decide, by decide⟩

lemma pairwise_set {α : Type} {R : α → α → Prop} {l : List α} {x : α}
    (hsymm : ∀ {a b}, R a b → R b a) (h : l.Pairwise R) (hx : ∀ a ∈ l, R x a) :
    (l.set i x).Pairwise R := by
  rw [pairwise_iff_getElem] at h ⊢
  intro j k hj hk hjk
  rw [length_set] at hj hk
  rw [getElem_set, getElem_set]
  split_ifs with hij hik
  · omega
  · exact hx _ (getElem_mem hk)
  · exact hsymm (hx _ (getElem_mem hj))
  · exact h j k hj hk hjk

lemma Sound.set (h : Sound l next) (hi : i < l.length) (hfree : l[i].1 = []) (hname : name ≠ [])
    (hnew : ∀ a ∈ l, a.1 ≠ name) : Sound (l.set i (name, next)) (next + 1) where
  apart := by
    refine pairwise_set (fun hab ha hb => (hab hb ha).imp Ne.symm Ne.symm) h.apart
      fun a ha _ hused => ⟨(hnew a ha).symm, (h.below a ha hused).ne'⟩
  below a ha hused := by
    obtain ha | rfl := mem_or_eq_of_mem_set ha
    · exact lt_succ_of_lt (h.below a ha hused)
    · exact lt_succ_self next
  first := le_succ_of_le h.first
  room := by
    have hpos : 0 < l.countP (·.1.isEmpty) :=
      countP_pos_iff.mpr ⟨l[i], getElem_mem hi, by simp [hfree]⟩
    have hroom := h.room
    rw [List.countP_set hi]
    simp only [hfree, List.isEmpty_nil, if_true, List.isEmpty_iff, hname, if_false]
    omega

lemma Sound.load {accounts : List Account} (h : Sound (ids accounts) next) (t : Table) :
    Sound (ids (t.load (some accounts)).accounts) (t.load (some accounts)).nextUid := by
  have hfold : ∀ (l : List Account) (k : Nat), k ≤ next → (∀ a ∈ l, a.name ≠ [] → a.uid < next) →
      let r := l.foldl
        (fun next a => if a.name ≠ [] ∧ next ≤ a.uid then (a.uid + 1) % 2 ^ 32 else next) k
      k ≤ r ∧ r ≤ next ∧ ∀ a ∈ l, a.name ≠ [] → a.uid < r := by
    intro l
    induction l with
    | nil => exact fun k hk _ => ⟨le_rfl, hk, nofun⟩
    | cons a l ih => ?_
    intro k hk hl
    have hroom := h.room
    have ha := hl a mem_cons_self
    rw [foldl_cons]
    split_ifs with hif
    · have huid := ha hif.1
      rw [mod_eq_of_lt (show a.uid + 1 < 2 ^ 32 by omega)]
      obtain ⟨hle, hr, hall⟩ := ih (a.uid + 1) (ha hif.1) fun b hb => hl b (.tail _ hb)
      exact ⟨by omega, hr, forall_mem_cons.mpr ⟨fun _ => by omega, hall⟩⟩
    · obtain ⟨hle, hr, hall⟩ := ih k hk fun b hb => hl b (.tail _ hb)
      refine ⟨hle, hr, forall_mem_cons.mpr ⟨fun hused => ?_, hall⟩⟩
      exact lt_of_lt_of_le (not_le.mp fun hge => hif ⟨hused, hge⟩) hle
  obtain ⟨hle, hr, hall⟩ := hfold accounts 1002 h.first fun a ha =>
    h.below (a.name, a.uid) (mem_map_of_mem ha)
  exact ⟨h.apart, forall_mem_map.mpr hall, hle, le_trans (Nat.add_le_add_right hr _) h.room⟩

/-- An entry in use has the uid. -/
def Has (l : List (List UInt8 × Nat)) (uid : Nat) : Prop := ∃ a ∈ l, a.1 ≠ [] ∧ a.2 = uid

lemma Has.set (h : Has l uid) (hi : i < l.length) (hfree : l[i].1 = []) (x : List UInt8 × Nat) :
    Has (l.set i x) uid := by
  obtain ⟨a, ha, hused, huid⟩ := h
  obtain ⟨j, hj⟩ := mem_iff_getElem?.mp ha
  have hne : i ≠ j := by
    rintro rfl
    rw [getElem?_eq_getElem hi, some.injEq] at hj
    exact hused (hj ▸ hfree)
  exact ⟨a, mem_iff_getElem?.mpr ⟨j, (getElem?_set_ne hne).trans hj⟩, hused, huid⟩

/-- The table and the one in the file are sound, and both have every uid
that was given out. -/
structure System.Inv (s : System) : Prop where
  table : Sound (ids s.table.accounts) s.table.nextUid
  file : ∀ accounts ∈ s.file, ∃ next, Sound (ids accounts) next
  handed : ∀ uid ∈ s.handed, Has (ids s.table.accounts) uid ∧
    ∃ accounts ∈ s.file, Has (ids accounts) uid

lemma ids_set {accounts : List Account} {a x : Account} (h : accounts[i]? = some a)
    (hx : (x.name, x.uid) = (a.name, a.uid)) : ids (accounts.set i x) = ids accounts := by
  obtain ⟨hlt, rfl⟩ := List.getElem?_eq_some_iff.mp h
  have hlt' : i < (ids accounts).length := by rwa [ids, length_map]
  have hget : (x.name, x.uid) = (ids accounts)[i] := hx.trans (by simp [ids])
  rw [ids, map_set, hget]
  exact set_getElem_self hlt'

lemma findName_none {t : Table} (h : t.findName name = none) :
    ∀ a ∈ ids t.accounts, a.1 ≠ [] → a.1 ≠ name := by
  refine forall_mem_map.mpr fun a ha hused heq => ?_
  exact find?_eq_none.mp h a ha (by simpa using And.intro hused heq)

lemma System.Inv.step (h : s.Inv) (op : Op) : (s.step sha256 op).Inv := by
  cases op with
  | addUser name password wheel stored =>
    rw [System.step]
    obtain ⟨hfail, heq⟩ | ⟨hdone, hname, hnew, i, a, hi, hfree, hname', huid, heq⟩ :=
      addUser_cases sha256 s.table name password stored wheel
    · rw [hfail, heq]
      exact h
    have hroom := h.table.room
    have hlt : (s.table.nextUid + 1) % 2 ^ 32 = s.table.nextUid + 1 := mod_eq_of_lt (by omega)
    have hids : ids (s.table.accounts.set i a) =
        (ids s.table.accounts).set i (name, s.table.nextUid) := by
      rw [ids, map_set, hname', huid]
      rfl
    have hlen : i < (ids s.table.accounts).length := by rwa [ids, length_map]
    have hempty : (ids s.table.accounts)[i].1 = [] := by simpa [ids] using hfree
    have hsound := h.table.set hlen hempty hname fun b hb heq =>
      findName_none hnew b hb (heq ▸ hname) heq
    rw [← hids, ← hlt] at hsound
    have hself : Has (ids (s.table.accounts.set i a)) s.table.nextUid :=
      ⟨(name, s.table.nextUid), hids ▸ mem_set hlen _, hname, rfl⟩
    rw [hdone, if_pos rfl, heq]
    refine ⟨hsound, fun accounts hfile => ?_, fun uid huid => ?_⟩
    · obtain rfl := some.inj hfile
      exact ⟨_, hsound⟩
    suffices hhas : Has (ids (s.table.accounts.set i a)) uid from ⟨hhas, _, rfl, hhas⟩
    obtain rfl | huid := mem_cons.mp huid
    · exact hself
    · exact hids ▸ (h.handed uid huid).1.set hlen hempty _
  | setPassword actor name password stored =>
    rw [System.step]
    obtain ⟨hfail, heq⟩ | ⟨hdone, i, a, hi, -, -, heq⟩ :=
      setPassword_cases sha256 s.table name password stored actor
    · rw [hfail, heq]
      exact h
    have hids := ids_set (x := { a with hash := passwordHash sha256 a.salt password }) hi rfl
    rw [hdone, if_pos rfl, heq]
    refine ⟨hids.symm ▸ h.table, fun accounts hfile => ?_, fun uid huid => ?_⟩
    · obtain rfl := some.inj hfile
      exact ⟨_, hids.symm ▸ h.table⟩
    have hhas := hids.symm ▸ (h.handed uid huid).1
    exact ⟨hhas, _, rfl, hhas⟩
  | init stored =>
    rw [System.step]
    cases hfile : s.file with
    | none =>
      have hhanded : s.handed = [] := eq_nil_iff_forall_not_mem.mpr fun uid huid => by
        obtain ⟨accounts, hacc, -⟩ := (h.handed uid huid).2
        exact nomatch hfile.symm.trans hacc
      refine ⟨bootTable_sound, fun accounts hacc => ?_, by rw [hhanded]; exact nofun⟩
      split_ifs at hacc
      · obtain rfl := some.inj hacc
        exact ⟨_, bootTable_sound⟩
      · cases hacc
    | some accounts => ?_
    obtain ⟨next, hsound⟩ := h.file accounts hfile
    have hkept : (if stored then some accounts else some accounts) = some accounts :=
      ite_self _
    refine ⟨hsound.load bootTable, fun accounts' hacc => ?_, fun uid huid => ?_⟩
    · obtain rfl := some.inj (hkept.symm.trans hacc)
      exact ⟨next, hsound⟩
    obtain ⟨accounts', hacc, hhas⟩ := (h.handed uid huid).2
    obtain rfl := some.inj (hfile.symm.trans hacc)
    exact ⟨hhas, accounts, hkept, hhas⟩

lemma run_inv (sha256 : List UInt8 → List UInt8) (ops : List Op) : (System.run sha256 ops).Inv := by
  refine List.foldlRecOn ops (System.step sha256) ?_ fun s hs op _ => hs.step op
  exact ⟨bootTable_sound, nofun, nofun⟩

end Proninx.Auth
