import Proninx.Kern.Proc

/-!
# The life cycle of processes

What the steps of `Kern.Proc` do to the fields that say which processes
there are: `state`, `pid`, `parent`. `lineage` sorts the steps into those
that leave every process what it is, the two halves of `fork`, `exit` and
the reaping half of `waitpid`. From it follows the shape of the process
tree in every run (`Family`): the processes that were made runnable have a
parent that is alive, whatever the others do, and an `EMBRYO` belongs to
one `fork` in progress.
-/

namespace Proninx.Ptable

open Function Option State

variable {sha256 : List UInt8 → List UInt8} {s t : State}

/-- The same process, which may have been put to sleep or woken. -/
structure Proc.Same (x y : Proc) : Prop where
  pid : y.pid = x.pid
  parent : y.parent = x.parent
  born : y.born = x.born
  state : y.state = x.state ∨ x.Live ∧ y.Live

open Proc

lemma Proc.Same.refl (x : Proc) : x.Same x := ⟨rfl, rfl, rfl, .inl rfl⟩

variable {x y : Proc}

lemma Proc.Same.live_iff (h : x.Same y) : y.Live ↔ x.Live := by
  rcases h.state with heq | ⟨hx, hy⟩
  · simp only [Live, heq]
  · exact iff_of_true hy hx

lemma Proc.Same.state_iff (h : x.Same y) {st : ProcState}
    (hst : st = .unused ∨ st = .embryo ∨ st = .zombie) : y.state = st ↔ x.state = st := by
  rcases h.state with heq | ⟨hx, hy⟩
  · rw [heq]
  have hnot : ∀ z : Proc, z.Live → z.state ≠ st := by
    intro z hz heq
    rw [Live, heq] at hz
    rcases hst with rfl | rfl | rfl <;> simp at hz
  exact iff_of_false (hnot y hy) (hnot x hx)

/-- Every process is the same as before. -/
structure Calm (s t : State) : Prop where
  proc : ∀ q, (s.proc q).Same (t.proc q)
  forking : t.forking = s.forking
  created : t.created = s.created
  nextpid : t.nextpid = s.nextpid

lemma Calm.of_proc (hproc : t.proc = s.proc) (hforking : t.forking = s.forking)
    (hcreated : t.created = s.created) (hnextpid : t.nextpid = s.nextpid) : Calm s t :=
  ⟨fun _ => hproc ▸ .refl _, hforking, hcreated, hnextpid⟩

lemma Calm.refl (s : State) : Calm s s := .of_proc rfl rfl rfl rfl

variable {p : Slot}

lemma Calm.put (h : (s.proc p).Same x) : Calm s (s.put p x) := by
  refine ⟨fun q => ?_, rfl, rfl, rfl⟩
  rw [put_proc]
  split
  case isTrue hq => exact hq ▸ h
  case isFalse => exact .refl _

/-- What a step does to the processes there are. -/
inductive Lineage (s : State) : Act → State → Prop where
  | calm {a : Act} {t : State} (h : Calm s t) : Lineage s a t
  | alloc {p np : Slot} (hrun : (s.proc p).state = .running) (hfork : s.forking p = none)
      (hnp : (s.proc np).state = .unused) :
      Lineage s (.call p .fork)
        { s.allocproc np with forking := update s.forking p (some np) }
  | copied {p np : Slot} (ok : Bool) (hrun : (s.proc p).state = .running)
      (hnp : s.forking p = some np) : Lineage s (.forkCopy p ok) (s.forkCopy p np ok)
  | exited {p : Slot} (hrun : (s.proc p).state = .running) (hfork : s.forking p = none)
      (hinit : p ≠ initproc) : Lineage s (.exit p) (s.exit p)
  | reaped {p q : Slot} (hrun : (s.proc p).state = .running) (hfork : s.forking p = none)
      (hparent : (s.proc q).parent = some p) (hzombie : (s.proc q).state = .zombie) :
      Lineage s (.call p (.waitpid q)) (s.reap q)

lemma Proc.raise_same (x : Proc) (sig : Nat) : x.Same (x.raise sig) := by
  refine ⟨rfl, rfl, rfl, ?_⟩
  by_cases hx : x.state = .sleeping
  · exact .inr ⟨.inl hx, .inr (.inl (if_pos hx))⟩
  · exact .inl (if_neg hx)

lemma kill_calm (self : Option Slot) (pid : Int) (sig : Nat) : Calm s (s.kill self pid sig) := by
  rw [kill]
  split
  · exact .refl s
  split
  · refine ⟨fun q => ?_, rfl, rfl, rfl⟩
    dsimp only
    split
    · exact .refl _
    · exact (s.proc q).raise_same sig
  · split
    · exact .refl s
    · exact .put (raise_same ..)

lemma Proc.take_same (x : Proc) : x.Same x.take := by
  rw [take]
  split
  · exact .refl x
  · exact ⟨rfl, rfl, rfl, .inl rfl⟩

lemma key_calm (c : Nat) : Calm s (s.key c) := by
  rw [key]
  split
  · rw [vtSwitch]
    split
    · split
      · exact .of_proc rfl rfl rfl rfl
      · exact .refl s
    · exact .refl s
  · split
    · exact kill_calm ..
    · exact .refl s

lemma switch_calm {before after : ProcState}
    (hbefore : before = .sleeping ∨ before = .runnable ∨ before = .running)
    (hafter : after = .sleeping ∨ after = .runnable ∨ after = .running)
    (h : s.switch p before after = some t) : Calm s t := by
  obtain ⟨hst, hs⟩ := ite_none_right_eq_some.mp h
  cases hs
  exact .put ⟨rfl, rfl, rfl, .inr ⟨by rwa [Live, hst], hafter⟩⟩

lemma call_lineage (hrun : (s.proc p).state = .running) (hfork : s.forking p = none)
    (c : Call) : Lineage s (.call p c) (s.call sha256 p c) := by
  cases c with
  | fork =>
    simp only [call, forkAlloc]
    cases hnp : s.findUnused with
    | none => exact .calm (.refl s)
    | some np => exact .alloc hrun hfork (by simpa using List.find?_some hnp)
  | waitpid q =>
    simp only [call]
    split
    case isTrue h => exact .reaped hrun hfork h.1 h.2
    case isFalse => exact .calm (.refl s)
  | login name password =>
    simp only [call, login]
    split
    · exact .calm (.refl s)
    · exact .calm (.put ⟨rfl, rfl, rfl, .inl rfl⟩)
  | doasAuth password =>
    simp only [call, doasAuth]
    split
    · have h : Calm s (s.put p { s.proc p with doasGrant := true }) := .put ⟨rfl, rfl, rfl, .inl rfl⟩
      exact .calm ⟨h.proc, rfl, rfl, rfl⟩
    · exact .calm (.refl s)
  | setuid uid =>
    simp only [call, setuid]
    split
    · exact .calm (.refl s)
    split
    · exact .calm (.refl s)
    have h : Calm s (s.put p { s.proc p with uid := 0, gid := 0, doasGrant := false }) :=
      .put ⟨rfl, rfl, rfl, .inl rfl⟩
    exact .calm ⟨h.proc, rfl, rfl, rfl⟩
  | useradd name password wheel stored =>
    simp only [call]
    split
    · exact .calm (.refl s)
    · exact .calm (.of_proc rfl rfl rfl rfl)
  | signal pid sig =>
    simp only [call]
    split
    · exact .calm (kill_calm ..)
    · exact .calm (.refl s)
  | setforeground pid =>
    simp only [call, setforeground]
    split
    · exact .calm (.refl s)
    · exact .calm (.of_proc rfl rfl rfl rfl)
  | exec => exact .calm (.refl s)
  | passwd name password stored => exact .calm (.of_proc rfl rfl rfl rfl)
  | sigcatch mask => exact .calm (.put ⟨rfl, rfl, rfl, .inl rfl⟩)
  | sigwait => exact .calm (.put (take_same _))
  | reopen tty => exact .calm (.put ⟨rfl, rfl, rfl, .inl rfl⟩)
  | ioctl canonical => exact .calm (.of_proc rfl rfl rfl rfl)

variable {a : Act}

lemma lineage (h : step sha256 s a = some t) : Lineage s a t := by
  cases a with
  | schedule p => exact .calm (switch_calm (by simp) (by simp) h)
  | yield p => exact .calm (switch_calm (by simp) (by simp) h)
  | sleep p => exact .calm (switch_calm (by simp) (by simp) h)
  | wakeup p => exact .calm (switch_calm (by simp) (by simp) h)
  | call p c =>
    obtain ⟨⟨hrun, hfork⟩, hs⟩ := ite_none_right_eq_some.mp h
    cases hs
    exact call_lineage hrun hfork c
  | forkCopy p ok =>
    obtain ⟨hrun, hs⟩ := ite_none_right_eq_some.mp h
    obtain ⟨np, hnp, rfl⟩ := map_eq_some_iff.mp hs
    exact .copied ok hrun hnp
  | exit p =>
    obtain ⟨⟨hrun, hfork, hinit⟩, hs⟩ := ite_none_right_eq_some.mp h
    cases hs
    exact .exited hrun hfork hinit
  | key c =>
    cases h
    exact .calm (key_calm c)

/-! ## The tree of processes -/

def Proc.Made (x : Proc) : Prop := x.state ≠ .unused ∧ x.state ≠ .embryo

lemma Proc.Same.made_iff (h : x.Same y) : y.Made ↔ x.Made := by
  rw [Made, Made, Ne, Ne, h.state_iff (by simp), h.state_iff (by simp)]

structure Family (s : State) : Prop where
  init : (s.proc initproc).Live ∧ (s.proc initproc).parent = none
  orphan : ∀ q, ¬ (s.proc q).Made → (s.proc q).parent = none
  parent : ∀ q, q ≠ initproc → (s.proc q).Made →
    ∃ p, (s.proc q).parent = some p ∧ (s.proc p).Live
  forking : ∀ p np, s.forking p = some np → (s.proc p).Live ∧ (s.proc np).state = .embryo
  once : ∀ p p' np, s.forking p = some np → s.forking p' = some np → p = p'
  embryo : ∀ q, (s.proc q).state = .embryo → ∃ p, s.forking p = some q

lemma Family.boot (table : Auth.Table) : Family (boot table) where
  init := by
    rw [boot_proc, if_pos rfl]
    exact ⟨.inr (.inl rfl), rfl⟩
  orphan q _ := by
    rw [boot_proc]
    split <;> rfl
  parent q hq hmade := by
    rw [boot_proc, if_neg hq] at hmade
    exact absurd rfl hmade.1
  forking _ _ h := by cases h
  once _ _ _ h := by cases h
  embryo q h := by
    rw [boot_proc] at h
    split at h <;> cases h

lemma Family.calm (h : Family s) (hc : Calm s t) : Family t where
  init := ⟨(hc.proc _).live_iff.mpr h.init.1, (hc.proc _).parent.trans h.init.2⟩
  orphan q hq := by
    rw [(hc.proc q).made_iff] at hq
    exact (hc.proc q).parent.trans (h.orphan q hq)
  parent q hq hmade := by
    obtain ⟨p, hp, hlive⟩ := h.parent q hq ((hc.proc q).made_iff.mp hmade)
    exact ⟨p, (hc.proc q).parent.trans hp, (hc.proc p).live_iff.mpr hlive⟩
  forking p np hf := by
    rw [hc.forking] at hf
    obtain ⟨hlive, hemb⟩ := h.forking p np hf
    exact ⟨(hc.proc p).live_iff.mpr hlive, ((hc.proc np).state_iff (by simp)).mpr hemb⟩
  once p p' np hf hf' := by
    rw [hc.forking] at hf hf'
    exact h.once p p' np hf hf'
  embryo q hq := by
    rw [hc.forking]
    exact h.embryo q (((hc.proc q).state_iff (by simp)).mp hq)

lemma not_live (h : x.state = .unused ∨ x.state = .embryo ∨ x.state = .zombie) : ¬ x.Live := by
  rintro (hx | hx | hx) <;> simp [hx] at h

lemma Family.slot (h : Family s) {n : Slot} (hn : ¬ (s.proc n).Live)
    (hproc : ∀ q, t.proc q = if q = n then y else s.proc q)
    (horphan : ¬ y.Made → y.parent = none)
    (hparent : y.Made → ∃ p, y.parent = some p ∧ (s.proc p).Live)
    (hforking : ∀ p m, t.forking p = some m →
      (m = n ∧ y.state = .embryo ∧ (s.proc p).Live) ∨ (m ≠ n ∧ s.forking p = some m))
    (honce : ∀ p p', t.forking p = some n → t.forking p' = some n → p = p')
    (hembryo : y.state = .embryo → ∃ p, t.forking p = some n)
    (hkept : ∀ p m, m ≠ n → s.forking p = some m → t.forking p = some m) : Family t := by
  have hother : ∀ q ≠ n, t.proc q = s.proc q := fun q hq => by rw [hproc, if_neg hq]
  have hself : t.proc n = y := by rw [hproc, if_pos rfl]
  have hlive : ∀ q, (s.proc q).Live → t.proc q = s.proc q := by
    intro q hq
    exact hother q fun heq => hn (heq ▸ hq)
  refine ⟨?_, fun q hq => ?_, fun q hq hmade => ?_, fun p m hm => ?_, fun p p' m hm hm' => ?_,
    fun q hq => ?_⟩
  · rw [hlive initproc h.init.1]
    exact h.init
  · by_cases hqn : q = n
    · subst hqn
      rw [hself] at hq ⊢
      exact horphan hq
    · rw [hother q hqn] at hq ⊢
      exact h.orphan q hq
  · have hres : ∃ p, (t.proc q).parent = some p ∧ (s.proc p).Live := by
      by_cases hqn : q = n
      · subst hqn
        rw [hself] at hmade ⊢
        exact hparent hmade
      · rw [hother q hqn] at hmade ⊢
        exact h.parent q hq hmade
    obtain ⟨p, hp, hpl⟩ := hres
    exact ⟨p, hp, by rwa [hlive p hpl]⟩
  · rcases hforking p m hm with ⟨rfl, hemb, hpl⟩ | ⟨hne, hf⟩
    · rw [hself, hlive p hpl]
      exact ⟨hpl, hemb⟩
    obtain ⟨hpl, hemb⟩ := h.forking p m hf
    rw [hother m hne, hlive p hpl]
    exact ⟨hpl, hemb⟩
  · rcases hforking p m hm with ⟨rfl, -, -⟩ | ⟨hne, hf⟩
    · exact honce p p' hm hm'
    rcases hforking p' m hm' with ⟨heq, -, -⟩ | ⟨-, hf'⟩
    · exact absurd heq hne
    · exact h.once p p' m hf hf'
  · by_cases hqn : q = n
    · subst hqn
      exact hembryo (hself ▸ hq)
    rw [hother q hqn] at hq
    obtain ⟨p, hp⟩ := h.embryo q hq
    exact ⟨p, hkept p q hqn hp⟩

variable {np : Slot}

lemma Family.alloc (h : Family s) (hrun : (s.proc p).state = .running)
    (hfork : s.forking p = none) (hnp : (s.proc np).state = .unused) :
    Family { s.allocproc np with forking := update s.forking p (some np) } := by
  have hnone : (s.proc np).parent = none := h.orphan np fun hm => hm.1 hnp
  have hnew : ∀ q, s.forking q ≠ some np := by
    intro q hq
    have hemb := (h.forking q np hq).2
    simp [hnp] at hemb
  refine h.slot (not_live (.inl hnp)) (fun q => update_apply ..) (fun _ => hnone)
    (fun hm => absurd rfl hm.2) (fun q m hm => ?_) (fun q q' hq hq' => ?_)
    (fun _ => ⟨p, update_self ..⟩) (fun q m hm hq => ?_)
  · by_cases hqp : q = p
    · subst hqp
      have hm' : some np = some m := by simpa using hm
      exact .inl ⟨(some.inj hm').symm, rfl, .inr (.inr hrun)⟩
    · have hm' : s.forking q = some m := (update_of_ne hqp ..).symm.trans hm
      exact .inr ⟨fun heq => hnew q (heq ▸ hm'), hm'⟩
  · have honly : ∀ r, update s.forking p (some np) r = some np → r = p := by
      intro r hr
      by_contra hrp
      exact hnew r (by rwa [update_of_ne hrp] at hr)
    rw [honly q hq, honly q' hq']
  · have hqp : q ≠ p := by
      rintro rfl
      simp [hfork] at hq
    exact (update_of_ne hqp ..).trans hq

lemma Family.copied (h : Family s) (ok : Bool) (hnp : s.forking p = some np) :
    Family (s.forkCopy p np ok) := by
  obtain ⟨hlive, hemb⟩ := h.forking p np hnp
  have hnone : (s.proc np).parent = none := h.orphan np fun hm => hm.2 hemb
  -- The slot is no longer that of a `fork`, whatever became of it.
  have key : ∀ y : Proc, y.state ≠ .embryo → (¬ y.Made → y.parent = none) →
      (y.Made → ∃ p, y.parent = some p ∧ (s.proc p).Live) →
      Family { s.put np y with forking := update s.forking p none } := by
    intro y hy horphan hparent
    have hold : ∀ q m, update s.forking p none q = some m → m ≠ np ∧ s.forking q = some m := by
      intro q m hm
      have hqp : q ≠ p := by
        rintro rfl
        simp at hm
      rw [update_of_ne hqp] at hm
      refine ⟨?_, hm⟩
      rintro rfl
      exact hqp (h.once q p m hm hnp)
    refine h.slot (not_live (.inr (.inl hemb))) (fun q => update_apply ..) horphan hparent
      (fun q m hm => .inr (hold q m hm)) (fun q q' hq => absurd rfl (hold q np hq).1)
      (fun hst => absurd hst hy) (fun q m hm hq => ?_)
    have hqp : q ≠ p := by
      rintro rfl
      exact hm (some.inj (hq.symm.trans hnp))
    exact (update_of_ne hqp ..).trans hq
  cases ok with
  | true =>
    refine key _ nofun (fun hm => ?_) fun _ => ⟨p, rfl, hlive⟩
    exact absurd ⟨nofun, nofun⟩ hm
  | false => exact key _ nofun (fun _ => hnone) fun hm => absurd rfl hm.1

variable {q : Slot}

lemma Family.reaped (h : Family s) (hz : (s.proc q).state = .zombie) : Family (s.reap q) := by
  have hnot : ∀ p, s.forking p ≠ some q := by
    intro p hp
    have hemb := (h.forking p q hp).2
    simp [hz] at hemb
  refine h.slot (not_live (.inr (.inr hz))) (fun r => update_apply ..) (fun _ => rfl)
    (fun hm => absurd rfl hm.1) (fun p m hm => .inr ⟨?_, hm⟩) (fun p _ hp => absurd hp (hnot p))
    nofun (fun p m _ hp => hp)
  rintro rfl
  exact hnot p hm

lemma exit_number (s : State) (p q : Slot) :
    ((s.exit p).proc q).born = (s.proc q).born ∧ ((s.exit p).proc q).pid = (s.proc q).pid := by
  simp only [exit]
  split <;> split <;> exact ⟨rfl, rfl⟩

lemma exit_state (hq : q ≠ p) : ((s.exit p).proc q).state = (s.proc q).state := by
  simp only [exit, if_neg hq]
  split <;> rfl

lemma Family.exited (h : Family s) (hrun : (s.proc p).state = .running)
    (hfork : s.forking p = none) (hinit : p ≠ initproc) : Family (s.exit p) := by
  have hparent : ∀ q, ((s.exit p).proc q).parent =
      if (s.proc q).parent = some p then some initproc else (s.proc q).parent := by
    intro q
    simp only [exit]
    split <;> split <;> rfl
  have hstate : ∀ q ≠ p, ((s.exit p).proc q).state = (s.proc q).state := fun q => exit_state
  have hzombie : ((s.exit p).proc p).state = .zombie := by simp [exit]
  have hlive : ∀ q ≠ p, (s.proc q).Live → ((s.exit p).proc q).Live := by
    intro q hq hl
    rwa [Live, hstate q hq]
  have hmade : ∀ q, ((s.exit p).proc q).Made → (s.proc q).Made := by
    intro q hm
    by_cases hqp : q = p
    · subst hqp
      simp [Made, hrun]
    · rwa [Made, hstate q hqp] at hm
  refine ⟨⟨hlive _ hinit.symm h.init.1, ?_⟩, fun q hq => ?_, fun q hq hm => ?_, fun q np hf => ?_,
    h.once, fun q hq => ?_⟩
  · rw [hparent, h.init.2, if_neg (by simp)]
  · have hqp : q ≠ p := by
      rintro rfl
      exact hq (by simp [Made, hzombie])
    have hnone := h.orphan q (by rwa [Made, hstate q hqp] at hq)
    rw [hparent, hnone, if_neg (by simp)]
  · obtain ⟨r, hr, hrl⟩ := h.parent q hq (hmade q hm)
    rw [hparent, hr]
    by_cases hrp : r = p
    · rw [if_pos (by rw [hrp])]
      exact ⟨initproc, rfl, hlive _ hinit.symm h.init.1⟩
    rw [if_neg (by simpa using hrp)]
    exact ⟨r, rfl, hlive r hrp hrl⟩
  · obtain ⟨hql, hemb⟩ := h.forking q np hf
    have hqp : q ≠ p := by
      rintro rfl
      cases hfork.symm.trans hf
    have hnp : np ≠ p := by
      rintro rfl
      simp [hrun] at hemb
    exact ⟨hlive q hqp hql, (hstate np hnp).trans hemb⟩
  · have hqp : q ≠ p := by
      rintro rfl
      simp [hzombie] at hq
    exact h.embryo q ((hstate q hqp).symm.trans hq)

lemma Family.step (h : Family s) (hs : step sha256 s a = some t) : Family t := by
  cases lineage hs with
  | calm hc => exact h.calm hc
  | alloc hrun hfork hnp => exact h.alloc hrun hfork hnp
  | copied ok _ hnp => exact h.copied ok hnp
  | exited hrun hfork hinit => exact h.exited hrun hfork hinit
  | reaped _ _ _ hz => exact h.reaped hz

/-! ## Pids -/

/-- Each slot in use has the pid of its own `allocproc`, as long as the
counter has not wrapped. -/
structure Pids (s : State) : Prop where
  counter : s.nextpid = s.created + 1
  pid : ∀ q, (s.proc q).state ≠ .unused →
    (s.proc q).born < s.created ∧ (s.proc q).pid = (s.proc q).born + 1
  inj : ∀ q r, (s.proc q).state ≠ .unused → (s.proc r).state ≠ .unused →
    (s.proc q).born = (s.proc r).born → q = r

lemma Pids.boot (table : Auth.Table) : Pids (boot table) := by
  have hused : ∀ q, ((Ptable.boot table).proc q).state ≠ .unused → q = initproc := by
    intro q hq
    by_contra hne
    rw [boot_proc, if_neg hne] at hq
    exact hq rfl
  refine ⟨rfl, fun q hq => ?_, fun q r hq hr _ => (hused q hq).trans (hused r hr).symm⟩
  obtain rfl := hused q hq
  rw [boot_proc, if_pos rfl]
  exact ⟨zero_lt_one, rfl⟩

lemma Pids.keep (h : Pids s) (hcreated : t.created = s.created) (hnext : t.nextpid = s.nextpid)
    (hproc : ∀ q, (t.proc q).state ≠ .unused → (s.proc q).state ≠ .unused ∧
      (t.proc q).born = (s.proc q).born ∧ (t.proc q).pid = (s.proc q).pid) : Pids t where
  counter := by rw [hnext, hcreated, h.counter]
  pid q hq := by
    obtain ⟨hs, hborn, hpid⟩ := hproc q hq
    rw [hborn, hpid, hcreated]
    exact h.pid q hs
  inj q r hq hr heq := by
    obtain ⟨hsq, hbq, -⟩ := hproc q hq
    obtain ⟨hsr, hbr, -⟩ := hproc r hr
    exact h.inj q r hsq hsr (by rw [← hbq, ← hbr, heq])

lemma Pids.alloc (h : Pids s) (hcreated : t.created = s.created + 1)
    (hnext : t.nextpid = incPid s.nextpid) (hpos : 0 < t.nextpid)
    (hproc : ∀ q, t.proc q = if q = np then y else s.proc q) (hborn : y.born = s.created)
    (hpid : y.pid = s.nextpid) : Pids t := by
  have hself : t.proc np = y := by rw [hproc, if_pos rfl]
  have hother : ∀ q ≠ np, t.proc q = s.proc q := fun q hq => by rw [hproc, if_neg hq]
  have hcounter := h.counter
  have hold : ∀ q ≠ np, (t.proc q).state ≠ .unused → (t.proc q).born ≠ (t.proc np).born := by
    intro q hq hst heq
    rw [hother q hq] at hst heq
    rw [hself, hborn] at heq
    exact ne_of_lt (h.pid q hst).1 heq
  refine ⟨?_, fun q hq => ?_, fun q r hq hr heq => ?_⟩
  · have hinc : incPid s.nextpid = s.nextpid + 1 := by
      rw [hnext, incPid] at hpos
      rw [incPid]
      split at hpos
      · omega
      rename_i hne
      rw [if_neg hne]
    rw [hnext, hcreated, hinc, hcounter]
    omega
  · by_cases hqn : q = np
    · subst hqn
      rw [hself, hborn, hpid, hcreated]
      omega
    rw [hother q hqn] at hq ⊢
    rw [hcreated]
    exact ⟨Nat.lt_succ_of_lt (h.pid q hq).1, (h.pid q hq).2⟩
  by_cases hqn : q = np
  · by_cases hrn : r = np
    · rw [hqn, hrn]
    · exact absurd (hqn ▸ heq).symm (hold r hrn hr)
  by_cases hrn : r = np
  · exact absurd (hrn ▸ heq) (hold q hqn hq)
  rw [hother q hqn] at hq heq
  rw [hother r hrn] at hr heq
  exact h.inj q r hq hr heq

lemma step_numbers (hs : step sha256 s a = some t) (hf : Family s) :
    (t.created = s.created ∧ t.nextpid = s.nextpid ∧
      ∀ q, (t.proc q).state ≠ .unused → (s.proc q).state ≠ .unused ∧
        (t.proc q).born = (s.proc q).born ∧ (t.proc q).pid = (s.proc q).pid) ∨
    ∃ np y, t.created = s.created + 1 ∧ t.nextpid = incPid s.nextpid ∧
      (∀ q, t.proc q = if q = np then y else s.proc q) ∧ y.born = s.created ∧ y.pid = s.nextpid := by
  cases lineage hs with
  | calm hc =>
    refine .inl ⟨hc.created, hc.nextpid, fun q hq => ⟨?_, (hc.proc q).born, (hc.proc q).pid⟩⟩
    rwa [Ne, (hc.proc q).state_iff (by simp)] at hq
  | alloc _ _ _ =>
    exact .inr ⟨_, _, rfl, rfl, fun q => update_apply .., rfl, rfl⟩
  | @copied p np ok _ hnp =>
    have hemb := (hf.forking p np hnp).2
    have hput : ∀ (y : Proc) (q : Slot), y.born = (s.proc np).born → y.pid = (s.proc np).pid →
        ((s.put np y).proc q).state ≠ .unused → (s.proc q).state ≠ .unused ∧
          ((s.put np y).proc q).born = (s.proc q).born ∧
          ((s.put np y).proc q).pid = (s.proc q).pid := by
      intro y q hborn hpid hq
      rw [put_proc] at hq ⊢
      split at hq
      case isTrue heq => subst heq; rw [if_pos rfl]; exact ⟨by simp [hemb], hborn, hpid⟩
      case isFalse hne => rw [if_neg hne]; exact ⟨hq, rfl, rfl⟩
    cases ok with
    | true => exact .inl ⟨rfl, rfl, fun q hq => hput _ q rfl rfl hq⟩
    | false => exact .inl ⟨rfl, rfl, fun q hq => hput _ q rfl rfl hq⟩
  | @exited p hrun _ _ =>
    refine .inl ⟨rfl, rfl, fun q hq => ⟨?_, exit_number s p q⟩⟩
    by_cases hqp : q = p
    · subst hqp
      simp [hrun]
    · rwa [exit_state hqp] at hq
  | @reaped p q _ _ _ hz =>
    refine .inl ⟨rfl, rfl, fun r hr => ?_⟩
    rw [reap, put_proc] at hr ⊢
    split at hr
    case isTrue => exact absurd rfl hr
    case isFalse hne => rw [if_neg hne]; exact ⟨hr, rfl, rfl⟩

lemma Pids.step (h : Pids s) (hf : Family s) (hs : step sha256 s a = some t)
    (hpos : 0 < t.nextpid) : Pids t := by
  rcases step_numbers hs hf with ⟨hcreated, hnext, hproc⟩ | ⟨np, y, hcreated, hnext, hproc, hborn, hpid⟩
  · exact h.keep hcreated hnext hproc
  · exact h.alloc hcreated hnext hpos hproc hborn hpid

lemma step_used (hs : step sha256 s a = some t) (hf : Family s) (hq : (t.proc q).state ≠ .unused) :
    ((s.proc q).state ≠ .unused ∧ (t.proc q).pid = (s.proc q).pid) ∨ (t.proc q).pid = s.nextpid := by
  rcases step_numbers hs hf with ⟨-, -, hproc⟩ | ⟨np, y, -, -, hproc, -, hpid⟩
  · exact .inl ⟨(hproc q hq).1, (hproc q hq).2.2⟩
  rw [hproc] at hq ⊢
  split at hq
  case isTrue heq => rw [if_pos heq]; exact .inr hpid
  case isFalse hne => rw [if_neg hne]; exact .inl ⟨hq, rfl⟩

lemma step_created (hs : step sha256 s a = some t) (hf : Family s) : s.created ≤ t.created := by
  rcases step_numbers hs hf with ⟨hcreated, -⟩ | ⟨_, _, hcreated, -⟩ <;> omega

lemma Pids.inj_pid (h : Pids s) {r : Slot} (hq : (s.proc q).state ≠ .unused)
    (hr : (s.proc r).state ≠ .unused) (heq : (s.proc q).pid = (s.proc r).pid) : q = r := by
  refine h.inj q r hq hr ?_
  have hpq := (h.pid q hq).2
  have hpr := (h.pid r hr).2
  omega

end Proninx.Ptable
