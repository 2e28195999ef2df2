import Proninx.Kern.Proc

/-!
# Foreground processes and Ctrl-C

`sys_setforeground` stores a pid in a terminal, and a Ctrl-C on that
terminal later sends `SIGINT` to the process that has it. The call asks
for no permission. In the runs in which each caller could have signalled
the pid it sets, and in which pids are not used a second time, the signal
reaches only a process that the caller was allowed to signal
(`ctrlC_allowed`); without that a user can interrupt `init`
(`ctrlC_interrupts_init`).
-/

namespace Proninx.Ptable

open ByteMem Function Runs State

variable {sha256 : List UInt8 → List UInt8} {s t : State}

lemma findPid_some {pid : Int} {q : Slot} (h : s.findPid pid = some q) : (s.proc q).pid = pid := by
  have := List.find?_some h
  exact (of_decide_eq_true this).2

lemma ctrlC_of_fgpid {pid : Int} (hfg : s.fgpid s.active = pid) (hpid : 0 < pid) :
    s.ctrlC = s.findPid pid := by
  unfold ctrlC
  rw [if_pos (hfg ▸ hpid), hfg]

lemma key_ctrlC (h : s.canonical) : s.key 3 =
    match s.ctrlC with
    | some q => s.put q ((s.proc q).raise SIGINT)
    | none => s := by
  unfold key ctrlC
  rw [if_neg (by decide)]
  by_cases hpos : 0 < s.fgpid s.active
  · rw [if_pos ⟨h, rfl, hpos⟩, if_pos hpos]
    unfold kill
    rw [if_neg (by decide), if_neg (by omega)]
    cases s.findPid (s.fgpid s.active) with
    | none => rfl
    | some q => rfl
  · rw [if_neg (fun hc => hpos hc.2.2), if_neg hpos]

/-! ## Pids -/

/-- A pid numbers the call of `allocproc` it comes from. -/
structure Numbered (s : State) : Prop where
  counter : s.nextpid = s.created + 1
  pid : ∀ p, (s.proc p).pid = 0 ∨ (s.proc p).pid = (s.proc p).born + 1

lemma boot_numbered (table : Auth.Table) : Numbered (boot table) := by
  refine ⟨rfl, fun p => ?_⟩
  rw [boot_proc]
  split
  · exact .inr rfl
  · exact .inl rfl

lemma Numbered.put {p : Slot} {x : Proc} (h : Numbered s)
    (hx : x.pid = 0 ∨ x.pid = x.born + 1) : Numbered (s.put p x) := by
  refine ⟨h.counter, fun q => ?_⟩
  rw [put_proc]
  split
  · exact hx
  · exact h.pid q

/-! ## Careful callers -/

/-- Whoever made the call was root, in wheel, or had the uid of the process
that had the pid. -/
def Setting.Allowed (r : Setting) : Prop :=
  r.uid = 0 ∨ r.wheel = true ∨ ∃ born, r.target = some (born, r.uid) ∧ r.pid = born + 1

/-- What each terminal remembers is the last `setforeground`, by a caller
that was allowed. -/
structure Guarded (s : State) : Prop extends Numbered s where
  unset : ∀ v, s.setting v = none → s.fgpid v = 0
  set : ∀ v r, s.setting v = some r → s.fgpid v = r.pid ∧ (0 < r.pid → r.Allowed)

/-- `setforeground` is called for a pid that the caller may signal, and
`nextpid` does not wrap. -/
def Permitted (s : State) : Act → Prop
  | .call p (.setforeground pid) => 0 ≤ pid → s.maySignal p pid = true
  | .call _ .fork => s.nextpid < 2 ^ 31 - 1
  | _ => True

def Careful (sha256 : List UInt8 → List UInt8) (s : State) (a : Act) (t : State) : Prop :=
  step sha256 s a = some t ∧ Permitted s a

lemma maySignal_allowed {p : Slot} {pid : Int} (hn : Numbered s) (hpid : 0 < pid)
    (h : s.maySignal p pid) : Setting.Allowed {
      pid := pid
      uid := (s.proc p).uid
      wheel := s.table.isWheel (s.proc p).uid
      target := (s.findPid pid).map fun q => ((s.proc q).born, (s.proc q).uid) } := by
  unfold maySignal at h
  rw [Bool.or_eq_true, Bool.or_eq_true, Bool.and_eq_true] at h
  rcases h with (h | h) | ⟨-, h⟩
  · exact .inl (of_decide_eq_true h)
  · exact .inr (.inl h)
  cases hq : s.findPid pid with
  | none => rw [hq] at h; cases h
  | some q => ?_
  rw [hq] at h
  have huid : (s.proc q).uid = (s.proc p).uid := of_decide_eq_true h
  have hnum : (s.proc q).pid = pid := findPid_some hq
  refine .inr (.inr ⟨(s.proc q).born, ?_, ?_⟩)
  · rw [← huid]
    rfl
  rcases hn.pid q with h0 | h1
  · omega
  · exact hnum.symm.trans h1

lemma boot_guarded (table : Auth.Table) : Guarded (boot table) where
  toNumbered := boot_numbered table
  unset _ _ := rfl
  set _ _ h := nomatch h

lemma Guarded.of_terminals (h : Guarded s) (hn : Numbered t) (hfg : t.fgpid = s.fgpid)
    (hset : t.setting = s.setting) : Guarded t where
  toNumbered := hn
  unset v := by rw [hset, hfg]; exact h.unset v
  set v r := by rw [hset, hfg]; exact h.set v r

lemma setforeground_guarded {p : Slot} {pid : Int} (hs : Guarded s) (hpid : 0 ≤ pid)
    (h : s.maySignal p pid) : Guarded (s.setforeground p pid) := by
  unfold setforeground
  rw [if_neg (not_lt.mpr hpid)]
  refine ⟨⟨hs.counter, hs.pid⟩, fun v hv => ?_, fun v r hv => ?_⟩ <;> dsimp only at hv ⊢ <;>
    rw [update_apply] at hv ⊢ <;> split at hv
  · cases hv
  · next hne =>
    rw [if_neg hne]
    exact hs.unset v hv
  · next heq =>
    cases hv
    rw [if_pos heq]
    exact ⟨rfl, fun hpos => maySignal_allowed hs.toNumbered hpos h⟩
  · next hne =>
    rw [if_neg hne]
    exact hs.set v r hv

lemma careful_guarded {a : Act} (hs : Guarded s) (h : Careful sha256 s a t) : Guarded t := by
  obtain ⟨hstep, hperm⟩ := h
  cases step_cases hstep with
  | quiet hq =>
    have hcount := congrArg Prod.fst hq.record
    have hnext : t.nextpid = s.nextpid := congrArg Prod.fst hcount
    have hcreated : t.created = s.created := congrArg (fun r => r.2.1) hcount
    refine hs.of_terminals ⟨by rw [hnext, hcreated]; exact hs.counter, fun p => ?_⟩
      (congrArg (fun r => r.2.1) hq.record) (congrArg (fun r => r.2.2) hq.record)
    rcases (hq.proc p).number with h0 | ⟨hpid, hborn⟩
    · exact .inl h0
    rw [hpid, hborn]
    exact hs.pid p
  | @alloc p np =>
    have hwrap : s.nextpid ≠ 2 ^ 31 - 1 := ne_of_lt hperm
    have hput : Numbered (s.put np { s.proc np with
        state := .embryo, pid := s.nextpid, uid := 0, gid := 0, doasGrant := false,
        sigPending := 0, sigCatch := 0, born := s.created }) :=
      hs.toNumbered.put (.inr hs.counter)
    refine hs.of_terminals ⟨?_, hput.pid⟩ rfl rfl
    change incPid s.nextpid = ((s.created + 1 : Nat) : Int) + 1
    unfold incPid
    rw [if_neg hwrap, hs.counter]
    push_cast
    rfl
  | @child p np hnp =>
    have hput : Numbered (s.put np { s.proc np with
        state := .runnable, parent := some p, uid := (s.proc p).uid, gid := (s.proc p).gid,
        doasGrant := (s.proc p).doasGrant, stdin := (s.proc p).stdin }) :=
      hs.toNumbered.put (hs.pid np)
    exact hs.of_terminals ⟨hput.counter, hput.pid⟩ rfl rfl
  | @login p name password uid gid hlog =>
    exact hs.of_terminals (hs.toNumbered.put (hs.pid p)) rfl rfl
  | @check p password hdoas =>
    have hput : Numbered (s.put p { s.proc p with doasGrant := true }) :=
      hs.toNumbered.put (hs.pid p)
    exact hs.of_terminals ⟨hput.counter, hput.pid⟩ rfl rfl
  | @elevate p hrun hne hgrant =>
    have hput : Numbered (s.put p { s.proc p with uid := 0, gid := 0, doasGrant := false }) :=
      hs.toNumbered.put (hs.pid p)
    exact hs.of_terminals ⟨hput.counter, hput.pid⟩ rfl rfl
  | @remain p hrun huid => exact hs.of_terminals (hs.toNumbered.put (hs.pid p)) rfl rfl
  | foreground hpid => exact setforeground_guarded hs hpid (hperm hpid)

/-- In every run of careful calls a Ctrl-C sends `SIGINT` to a process only
if whoever last set the foreground of the terminal set it to that very
process, and was root, in wheel, or had its uid. -/
theorem ctrlC_allowed (sha256 : List UInt8 → List UInt8) (table : Auth.Table) {as : List Act}
    (h : Run (Careful sha256) (boot table) as s) (q : Slot) (hq : s.ctrlC = some q)
    (hcanon : s.canonical = true) :
    s.key 3 = s.put q ((s.proc q).raise SIGINT) ∧
      ∃ r, s.setting s.active = some r ∧ r.pid = (s.proc q).pid ∧
        (r.uid = 0 ∨ r.wheel = true ∨ r.target = some ((s.proc q).born, r.uid)) := by
  have hs : Guarded s := h.invariant (boot_guarded table) fun _ _ _ => careful_guarded
  refine ⟨by rw [key_ctrlC hcanon, hq], ?_⟩
  unfold ctrlC at hq
  split at hq
  · next hpos =>
    have hpid : (s.proc q).pid = s.fgpid s.active := findPid_some hq
    cases hset : s.setting s.active with
    | none =>
      have := hs.unset _ hset
      omega
    | some r => ?_
    obtain ⟨hfg, hallowed⟩ := hs.set _ _ hset
    refine ⟨r, rfl, hfg.symm.trans hpid.symm, ?_⟩
    rcases hallowed (by omega) with hroot | hwheel | ⟨born, htarget, hborn⟩
    · exact .inl hroot
    · exact .inr (.inl hwheel)
    -- pids are not used twice, so the process with the pid is the one it named then
    have hsame : born = (s.proc q).born := by
      rcases hs.pid q with h0 | h1 <;> omega
    exact .inr (.inr (hsame ▸ htarget))
  · cases hq

/-! ## A user and `init` -/

/-- The first process forks, and the second logs in as the user. -/
def loginActs : List Act :=
  [.schedule initproc, .call initproc .fork, .forkCopy initproc true, .schedule childproc,
    .call childproc (.login (ascii "user") (ascii "openproninx-user"))]

/-- Two processes, the first of them root, and no terminal set. -/
structure LoggedIn (s : State) : Prop where
  running : (s.proc childproc).state = .running
  forking : s.forking childproc = none
  first : s.findPid 1 = some initproc
  second : s.findPid 2 = some childproc
  root : (s.proc initproc).uid = 0 ∧ (s.proc initproc).pid = 1
  user : (s.proc childproc).uid = 1001 ∧ (s.proc childproc).pid = 2 ∧ (s.proc childproc).born = 1
  stdin : (s.proc childproc).stdin = none
  wheel : s.table.isWheel 1001 = false
  canonical : s.canonical = true

lemma boot_loggedIn {table : Auth.Table}
    (hlogin : table.login sha256 (ascii "user") (ascii "openproninx-user") = some (1001, 1001))
    (hwheel : table.isWheel 1001 = false) :
    ∃ s, Run (Careful sha256) (boot table) loginActs s ∧ LoggedIn s := by
  refine ⟨_, .cons ⟨rfl, trivial⟩ (.cons ⟨rfl, (by decide : (2 : Int) < 2 ^ 31 - 1)⟩
    (.cons ⟨rfl, trivial⟩ (.cons ⟨rfl, trivial⟩ (.cons ⟨(step_call rfl rfl).trans
      (congrArg some (login_eq hlogin)), trivial⟩ .nil)))), ?_⟩
  exact ⟨rfl, rfl, rfl, rfl, ⟨rfl, rfl⟩, ⟨rfl, rfl, rfl⟩, rfl, hwheel, rfl⟩

lemma LoggedIn.setforeground (h : LoggedIn s) (pid : Int) {q : Slot} (hpid : 0 < pid)
    (hq : s.findPid pid = some q) :
    let t := s.setforeground childproc pid
    t.proc = s.proc ∧ t.canonical ∧ t.ctrlC = some q ∧
      t.setting t.active = some ⟨pid, 1001, false, some ((s.proc q).born, (s.proc q).uid)⟩ := by
  have htty : s.ttyFor childproc = s.active := by
    unfold ttyFor
    rw [h.stdin]
    rfl
  have hset : s.setforeground childproc pid = { s with
      fgpid := update s.fgpid s.active pid
      setting := update s.setting s.active
        (some ⟨pid, 1001, false, some ((s.proc q).born, (s.proc q).uid)⟩) } := by
    unfold State.setforeground
    rw [if_neg (by omega), htty, h.user.1, h.wheel, hq]
    rfl
  dsimp only
  rw [hset]
  refine ⟨rfl, h.canonical, ?_, update_self ..⟩
  exact (ctrlC_of_fgpid (update_self ..) hpid).trans hq

theorem ctrlC_own_process :
    ∃ as s, Run (Careful Sha256.digest) (boot Auth.bootTable) as s ∧ s.ctrlC = some childproc ∧
      s.key 3 = s.put childproc ((s.proc childproc).raise SIGINT) := by
  obtain ⟨s, hrun, hs⟩ := boot_loggedIn Auth.bootTable_user (by decide)
  obtain ⟨-, hcanon, hctrl, -⟩ := hs.setforeground 2 (by decide) hs.second
  have hmay : s.maySignal childproc 2 = true := by
    unfold maySignal
    rw [hs.second]
    simp
  have hlast : Run (Careful Sha256.digest) s [.call childproc (.setforeground 2)] _ :=
    .cons ⟨step_call hs.running hs.forking, fun _ => hmay⟩ .nil
  have hall := hrun.append hlast
  exact ⟨_, _, hall, hctrl, (ctrlC_allowed _ _ hall childproc hctrl hcanon).1⟩

/-- A user sets the foreground of the terminal to pid 1, and a Ctrl-C
interrupts `init`, which the user may not signal. -/
theorem ctrlC_interrupts_init :
    ∃ as s r, Run (fun s a t => step Sha256.digest s a = some t) (boot Auth.bootTable) as s ∧
      s.canonical = true ∧ s.ctrlC = some initproc ∧ (s.proc initproc).pid = 1 ∧
      s.setting s.active = some r ∧ r.pid = 1 ∧
      ¬ (r.uid = 0 ∨ r.wheel = true ∨ r.target = some ((s.proc initproc).born, r.uid)) := by
  obtain ⟨s, hrun, hs⟩ := boot_loggedIn Auth.bootTable_user (by decide)
  obtain ⟨hproc, hcanon, hctrl, hset⟩ := hs.setforeground 1 (by decide) hs.first
  have hlast : Run (fun s a t => step Sha256.digest s a = some t) s
      [.call childproc (.setforeground 1)] _ :=
    .cons (step_call hs.running hs.forking) .nil
  refine ⟨_, _, _, (hrun.mono fun _ _ _ h => h.1).append hlast, hcanon, hctrl, ?_, hset, rfl, ?_⟩
  · exact (congrArg (fun f => (f initproc).pid) hproc).trans hs.root.2
  rw [hs.root.1]
  simp

end Proninx.Ptable
