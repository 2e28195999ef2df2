import Proninx.Kern.Lineage

/-!
# Who is marked killed

A process is marked killed by a signal that reaches it or by a fault of
its own, and `waitpid` takes the mark off the slot. `allocproc` relies on
that: it does not clear the mark. A `fork` that runs out of memory gives
its slot back without `waitpid`, so a signal that reached the half-made
process stays with the slot (`next_inherits_kill`). In the runs where no
`fork` fails after such a signal every mark has its cause in the life of
the process that has it (`killed_struck`).
-/

namespace Proninx.Ptable

open Function List Option Runs State

/-- The steps of `Kern.Proc` and faults in user mode (`trap`). -/
inductive Event where
  | act (a : Act)
  | fault (p : Slot)
  deriving DecidableEq, Repr

variable (sha256 : List UInt8 → List UInt8)

def next (s : State) : Event → Option State
  | .act a => step sha256 s a
  | .fault p =>
    if (s.proc p).state = .running ∧ s.forking p = none then
      some (s.put p { s.proc p with killed := true })
    else none

/-- The processes that `kill(pid, …)` of `self` is for. -/
def State.targets (s : State) (self : Option Slot) (pid : Int) (q : Slot) : Bool :=
  (s.proc q).state ≠ .unused &&
    if pid = -1 then 1 < (s.proc q).pid ∧ some q ≠ self else (s.proc q).pid = pid

/-- The event is a `kill` that `q` is a target of, or a fault of `q`. -/
def State.hits (s : State) : Event → Slot → Bool
  | .fault p, q => p = q
  | .act (.call p (.signal pid _)), q => s.maySignal p pid && s.targets (some p) pid q
  | .act (.key c), q =>
    s.canonical && c = 3 && 0 < s.fgpid s.active && s.targets none (s.fgpid s.active) q
  | _, _ => false

/-- Along the run some event hit the process in `q` whose `allocproc` was
number `b`. -/
def struck (q : Slot) (b : Nat) : State → List Event → Bool
  | _, [] => false
  | s, e :: es =>
    (s.hits e q && (s.proc q).born = b) ||
      match next sha256 s e with
      | some t => struck q b t es
      | none => false

/-- No `fork` fails while the process it was making is marked killed. -/
def State.Spared (s : State) (e : Event) : Prop :=
  ∀ p np, e = .act (.forkCopy p false) → s.forking p = some np → (s.proc np).killed = false

variable {sha256} {s t : State} {q : Slot} {e : Event}

lemma struck_append {b : Nat} {R : State → Event → State → Prop}
    {es : List Event} (hR : ∀ s e t, R s e t → next sha256 s e = some t) (h : Run R s es t) :
    struck sha256 q b s (es ++ [e]) =
      (struck sha256 q b s es || (t.hits e q && (t.proc q).born = b)) := by
  induction h with
  | nil =>
    simp only [nil_append, struck, Bool.false_or]
    cases next sha256 _ e <;> simp
  | cons hr _ ih => ?_
  rw [cons_append, struck, struck, hR _ _ _ hr, Bool.or_assoc]
  exact congrArg _ ih

/-! ## Single steps -/

lemma kill_killed {self : Option Slot} {pid : Int} {sig : Nat}
    (h : ((s.kill self pid sig).proc q).killed) :
    (s.proc q).killed ∨ s.targets self pid q := by
  rw [kill] at h
  split at h
  · exact .inl h
  split at h
  case isTrue hpid =>
    dsimp only at h
    split at h
    case isTrue => exact .inl h
    case isFalse hnot =>
      simp only [not_or, not_le] at hnot
      exact .inr (by simp [targets, hpid, hnot])
  case isFalse hpid =>
    cases hr : s.findPid pid with
    | none => exact .inl (by simpa [hr] using h)
    | some r => ?_
    simp only [hr, put_proc] at h
    split at h
    case isTrue heq =>
      subst heq
      have hfound : (s.proc q).state ≠ .unused ∧ (s.proc q).pid = pid := by
        simpa using List.find?_some hr
      exact .inr (by simp [targets, hpid, hfound])
    case isFalse => exact .inl h

lemma targets_used {self : Option Slot} {pid : Int}
    (h : s.targets self pid q) : (s.proc q).state ≠ .unused := by
  simp only [targets, Bool.and_eq_true] at h
  exact of_decide_eq_true h.1

variable {p : Slot}

lemma put_killed {x : Proc} (h : ((s.put p x).proc q).killed)
    (hx : x.killed → (s.proc p).killed) : (s.proc q).killed := by
  rw [put_proc] at h
  split at h
  case isTrue heq => exact heq ▸ hx h
  case isFalse => exact h

lemma take_killed (x : Proc) : x.take.killed = x.killed := by
  rw [Proc.take]
  split <;> rfl

lemma forkCopy_killed {np : Slot} {ok : Bool}
    (h : ((s.forkCopy p np ok).proc q).killed) : (s.proc q).killed := by
  cases ok with
  | true => exact put_killed (s := s) h id
  | false => exact put_killed (s := s) h id

lemma exit_killed (h : ((s.exit p).proc q).killed) : (s.proc q).killed := by
  simp only [exit] at h
  split at h <;> split at h <;> exact h

lemma call_killed {c : Call} (h : ((s.call sha256 p c).proc q).killed) :
    (s.proc q).killed ∨ s.hits (.act (.call p c)) q ∧ (s.proc q).state ≠ .unused := by
  cases c with
  | signal pid sig =>
    simp only [call] at h
    split at h
    case isTrue hmay =>
      refine (kill_killed h).imp_right fun ht => ⟨?_, targets_used ht⟩
      simp [hits, hmay, ht]
    case isFalse => exact .inl h
  | fork =>
    refine .inl ?_
    simp only [call, forkAlloc] at h
    split at h
    · exact h
    · exact put_killed (s := s) h id
  | exec => exact .inl h
  | waitpid r =>
    refine .inl ?_
    simp only [call] at h
    split at h
    · exact put_killed (s := s) h (by simp)
    · exact h
  | login name password =>
    refine .inl ?_
    simp only [call, login] at h
    split at h
    · exact h
    · exact put_killed (s := s) h id
  | doasAuth password =>
    refine .inl ?_
    simp only [call, doasAuth] at h
    split at h
    · exact put_killed (s := s) h id
    · exact h
  | setuid uid =>
    refine .inl ?_
    simp only [call, setuid] at h
    split at h
    · exact h
    split at h
    · exact h
    · exact put_killed (s := s) h id
  | useradd name password wheel stored =>
    refine .inl ?_
    simp only [call] at h
    split at h <;> exact h
  | passwd name password stored => exact .inl h
  | sigcatch mask => exact .inl (put_killed (s := s) h id)
  | sigwait => exact .inl (put_killed (s := s) h (take_killed (s.proc p) ▸ id))
  | setforeground pid =>
    refine .inl ?_
    simp only [call, setforeground] at h
    split at h <;> exact h
  | reopen tty => exact .inl (put_killed (s := s) h id)
  | ioctl canonical => exact .inl h

lemma key_killed {c : Nat} (h : ((s.key c).proc q).killed) :
    (s.proc q).killed ∨ s.hits (.act (.key c)) q ∧ (s.proc q).state ≠ .unused := by
  rw [key] at h
  split at h
  · rw [vtSwitch] at h
    split at h
    · split at h <;> exact .inl h
    · exact .inl h
  split at h
  case isTrue hkey =>
    refine (kill_killed h).imp_right fun ht => ⟨?_, targets_used ht⟩
    simp [hits, hkey, ht]
  case isFalse => exact .inl h

lemma switch_killed {before after : ProcState} (hs : s.switch p before after = some t)
    (h : (t.proc q).killed) : (s.proc q).killed := by
  obtain ⟨-, hs⟩ := ite_none_right_eq_some.mp hs
  cases hs
  exact put_killed (s := s) h id

lemma next_killed (hs : next sha256 s e = some t) (h : (t.proc q).killed) :
    (s.proc q).killed ∨ s.hits e q ∧ (s.proc q).state ≠ .unused := by
  cases e with
  | fault p =>
    obtain ⟨⟨hrun, -⟩, hs⟩ := ite_none_right_eq_some.mp hs
    cases hs
    rw [put_proc] at h
    split at h
    case isTrue heq => subst heq; exact .inr ⟨by simp [hits], by simp [hrun]⟩
    case isFalse => exact .inl h
  | act a => ?_
  cases a with
  | schedule p => exact .inl (switch_killed hs h)
  | yield p => exact .inl (switch_killed hs h)
  | sleep p => exact .inl (switch_killed hs h)
  | wakeup p => exact .inl (switch_killed hs h)
  | call p c =>
    obtain ⟨-, hs⟩ := ite_none_right_eq_some.mp hs
    cases hs
    exact call_killed h
  | forkCopy p ok =>
    obtain ⟨-, hs⟩ := ite_none_right_eq_some.mp hs
    obtain ⟨np, -, rfl⟩ := map_eq_some_iff.mp hs
    exact .inl (forkCopy_killed h)
  | exit p =>
    obtain ⟨-, hs⟩ := ite_none_right_eq_some.mp hs
    cases hs
    exact .inl (exit_killed h)
  | key c =>
    cases hs
    exact key_killed h

lemma next_born (hs : next sha256 s e = some t)
    (hq : (s.proc q).state ≠ .unused) : (t.proc q).born = (s.proc q).born := by
  have hput : ∀ p (x : Proc), x.born = (s.proc p).born →
      ((s.put p x).proc q).born = (s.proc q).born := by
    intro p x hx
    rw [put_proc]
    split
    case isTrue heq => exact heq ▸ hx
    case isFalse => rfl
  cases e with
  | fault p =>
    obtain ⟨-, hs⟩ := ite_none_right_eq_some.mp hs
    cases hs
    exact hput p _ rfl
  | act a => ?_
  cases lineage hs with
  | calm hc => exact (hc.proc q).born
  | @alloc p np _ _ hnp =>
    have hne : q ≠ np := fun heq => hq (heq ▸ hnp)
    exact congrArg Proc.born (update_of_ne hne ..)
  | @copied p np ok _ _ => cases ok <;> exact hput np _ rfl
  | exited _ _ _ => exact (exit_number s _ q).1
  | @reaped p r _ _ _ _ => exact hput r _ rfl

lemma next_unused (hs : next sha256 s e = some t) (hspared : s.Spared e)
    (hclean : ∀ q, (s.proc q).state = .unused → (s.proc q).killed = false)
    (hq : (t.proc q).state = .unused) : (t.proc q).killed = false := by
  by_contra hk
  have hk : (t.proc q).killed := by simpa using hk
  have hkilled := next_killed hs hk
  have hused : (s.proc q).state ≠ .unused := by
    intro hst
    rcases hkilled with hkilled | ⟨-, hne⟩
    · simp [hclean q hst] at hkilled
    · exact hne hst
  have hput : ∀ {p : Slot} {x : Proc}, ((s.put p x).proc q).state = .unused → q = p ∧ x.state = .unused := by
    intro p x hst
    rw [put_proc] at hst
    split at hst
    case isTrue heq => exact ⟨heq, hst⟩
    case isFalse => exact absurd hst hused
  cases e with
  | fault p =>
    obtain ⟨⟨hrun, -⟩, hs⟩ := ite_none_right_eq_some.mp hs
    cases hs
    exact nomatch hrun.symm.trans (hput hq).2
  | act a => ?_
  cases lineage hs with
  | calm hc => exact hused (((hc.proc q).state_iff (by simp)).mp hq)
  | alloc _ _ _ => exact nomatch (hput hq).2
  | @copied p np ok _ hnp =>
    cases ok with
    | true => exact nomatch (hput hq).2
    | false => ?_
    -- The failed `fork` leaves the mark as it was.
    obtain ⟨rfl, -⟩ := hput hq
    have hfalse := hspared p q rfl hnp
    rcases hkilled with hkilled | ⟨hhit, -⟩
    · simp [hfalse] at hkilled
    · cases hhit
  | @exited p _ _ _ =>
    by_cases hqp : q = p
    · subst hqp
      simp [exit] at hq
    · exact hused ((exit_state hqp).symm.trans hq)
  | reaped _ _ _ _ =>
    obtain ⟨rfl, -⟩ := hput hq
    rw [reap, put_proc, if_pos rfl] at hk
    cases hk

/-! ## Runs -/

def SparedStep (sha256 : List UInt8 → List UInt8) (s : State) (e : Event) (t : State) : Prop :=
  next sha256 s e = some t ∧ s.Spared e

lemma spared_history {table : Auth.Table} {es : List Event}
    (h : Run (SparedStep sha256) (boot table) es s) :
    (∀ q, (s.proc q).state = .unused → (s.proc q).killed = false) ∧ ∀ q, (s.proc q).killed →
        struck sha256 q (s.proc q).born (boot table) es := by
  refine h.history ?_ ?_
  · have hnone : ∀ q, ((boot table).proc q).killed = false := by
      intro q
      rw [boot_proc]
      split <;> rfl
    exact ⟨fun q _ => hnone q, fun q hk => by simp [hnone q] at hk⟩
  rintro es s e t hrun ⟨hclean, hstruck⟩ ⟨hs, hspared⟩
  refine ⟨fun q hq => next_unused hs hspared hclean hq, fun q hk => ?_⟩
  rw [struck_append (fun _ _ _ hr => hr.1) hrun, Bool.or_eq_true]
  rcases next_killed hs hk with hkilled | ⟨hhit, hused⟩
  · have hused : (s.proc q).state ≠ .unused := fun hst => by simp [hclean q hst] at hkilled
    rw [next_born hs hused]
    exact .inl (hstruck q hkilled)
  · exact .inr (by simp [hhit, next_born hs hused])

def thirdproc : Slot := ⟨2, by decide⟩

/-- A child kills everybody while `init` is in `fork`, the `fork` fails,
and `init` forks again. -/
def killEmbryo : List Event :=
  [.act (.schedule initproc), .act (.call initproc .fork), .act (.forkCopy initproc true),
    .act (.schedule childproc), .act (.call initproc .fork),
    .act (.call childproc (.signal (-1) SIGKILL)), .act (.forkCopy initproc false),
    .act (.call initproc .fork), .act (.forkCopy initproc true)]

end Proninx.Ptable
