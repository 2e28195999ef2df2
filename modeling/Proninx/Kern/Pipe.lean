import Mathlib.Data.Fintype.Basic
import Proninx.Lib.RingBuffer
import Proninx.Lib.Runs

/-!
# Pipes

One pipe (`pipe.c`) and the processes that share its two ends. The code
between taking `p->lock` and giving it up, by `release` or by `sleep`, is
one step, so a call that sleeps is several steps with those of other
processes in between; a sleeper may be woken at any time. A process holds
descriptors of either end, gets more from `dup` and `fork`, and the close
of the last descriptor of an end is `pipeclose`.

`accepted` and `returned` are history: the bytes that writes stored and
the bytes that reads returned.
-/

namespace Proninx.Pipes

open Function List Option

def PIPESIZE : Nat := 512

def UINT : Nat := 2 ^ 32

inductive End where
  | read
  | write
  deriving DecidableEq, Repr

structure Pipe where
  data : Nat → UInt8
  nread : Nat
  nwrite : Nat
  readopen : Bool
  writeopen : Bool

open Pipe

def Pipe.isOpen (p : Pipe) : End → Bool
  | .read => p.readopen
  | .write => p.writeopen

/-- `nwrite - nread` on a `uint`. -/
def Pipe.buffered (p : Pipe) : Nat := (p.nwrite + UINT - p.nread) % UINT

def Pipe.full (p : Pipe) : Bool := p.nwrite == (p.nread + PIPESIZE) % UINT

def Pipe.empty (p : Pipe) : Bool := p.nread == p.nwrite

def Pipe.store (p : Pipe) (b : UInt8) : Pipe :=
  { p with
    data := update p.data (p.nwrite % PIPESIZE) b
    nwrite := (p.nwrite + 1) % UINT }

def Pipe.fetch (p : Pipe) : UInt8 × Pipe :=
  (p.data (p.nread % PIPESIZE), { p with nread := (p.nread + 1) % UINT })

def pipealloc (page : Nat → UInt8) : Pipe where
  data := page
  nread := 0
  nwrite := 0
  readopen := true
  writeopen := true

/-- `pipeclose`; `none` when the page is freed. -/
def Pipe.pipeclose (p : Pipe) (e : End) : Option Pipe :=
  let q := match e with
    | .write => { p with writeopen := false }
    | .read => { p with readopen := false }
  if q.readopen = false ∧ q.writeopen = false then none else some q

/-- How a stretch of a call under the lock ends. -/
inductive Outcome (ρ : Type) where
  | sleeps
  /-- `return -1` -/
  | fails
  | returns (r : ρ)
  deriving DecidableEq, Repr

/-- The loop of `pipewrite` until the buffer is full, with the number of
bytes stored. -/
def Pipe.fill : Pipe → List UInt8 → Pipe × Nat
  | p, [] => (p, 0)
  | p, b :: bs =>
    if p.full then (p, 0)
    else
      let (q, k) := (p.store b).fill bs
      (q, k + 1)

/-- `pipewrite` of `bs` from byte `i` on. -/
def Pipe.pipewrite (p : Pipe) (killed : Bool) (bs : List UInt8) (i : Nat) :
    Pipe × Nat × Outcome Nat :=
  let (q, k) := p.fill (bs.drop i)
  if bs.length ≤ i + k then (q, k, .returns bs.length)
  else if q.readopen = false ∨ killed then (q, k, .fails)
  else (q, k, .sleeps)

def Pipe.drain : Nat → Pipe → Pipe × List UInt8
  | 0, p => (p, [])
  | n + 1, p =>
    if p.empty then (p, [])
    else
      let (q, bs) := drain n p.fetch.2
      (q, p.fetch.1 :: bs)

def Pipe.piperead (p : Pipe) (killed : Bool) (n : Nat) : Pipe × Outcome (List UInt8) :=
  if p.empty ∧ p.writeopen then (p, if killed then .fails else .sleeps)
  else
    let (q, bs) := p.drain n
    (q, .returns bs)

/-! ## The processes -/

inductive Call where
  | none
  | pipewrite (bs : List UInt8) (i : Nat)
  | piperead (n : Nat)
  deriving DecidableEq, Repr

section Processes

variable {π : Type}

structure State (π : Type) where
  /-- `none` after the page was freed. -/
  pipe : Option Pipe
  /-- The descriptors of an end a process has. -/
  fds : End → π → Nat
  call : π → Call
  accepted : List UInt8
  returned : List UInt8

inductive Act (π : Type) where
  | pipewrite (p : π) (bs : List UInt8) (killed : Bool)
  | piperead (p : π) (n : Nat) (killed : Bool)
  /-- A sleeper goes on. -/
  | resume (p : π) (killed : Bool)
  /-- `q` gets a descriptor of an end `p` has one of. -/
  | share (p q : π) (e : End)
  | close (p : π) (e : End)

/-- What a step tells the process that takes it. -/
inductive Reply where
  | quiet
  | wrote (o : Outcome Nat)
  /-- `n` bytes were asked for. -/
  | read (n : Nat) (o : Outcome (List UInt8))
  deriving DecidableEq, Repr

def Reply.bytes : Reply → List UInt8
  | .read _ (.returns bs) => bs
  | _ => []

variable [DecidableEq π]

def State.write (s : State π) (p : π) (killed : Bool) (bs : List UInt8) (i : Nat) :
    Option (State π × Reply) :=
  s.pipe.map fun x =>
    let (y, k, o) := x.pipewrite killed bs i
    ({ s with
        pipe := some y
        call := update s.call p (if o = .sleeps then .pipewrite bs (i + k) else .none)
        accepted := s.accepted ++ (bs.drop i).take k }, .wrote o)

def State.read (s : State π) (p : π) (killed : Bool) (n : Nat) : Option (State π × Reply) :=
  s.pipe.map fun x =>
    let (y, o) := x.piperead killed n
    ({ s with
        pipe := some y
        call := update s.call p (if o = .sleeps then .piperead n else .none)
        returned := s.returned ++ (Reply.read n o).bytes }, .read n o)

/-- The descriptors after `p` gets `n` of end `e`. -/
def State.setFds (s : State π) (e : End) (p : π) (n : Nat) : State π :=
  { s with fds := update s.fds e (update (s.fds e) p n) }

variable [Fintype π]

/-- `fileclose` of a descriptor of end `e`. -/
def State.close (s : State π) (p : π) (e : End) : State π :=
  let s := s.setFds e p (s.fds e p - 1)
  if ∀ q, s.fds e q = 0 then { s with pipe := s.pipe.bind (·.pipeclose e) } else s

def step (s : State π) : Act π → Option (State π × Reply)
  | .pipewrite p bs killed =>
    if s.call p = .none ∧ 0 < s.fds .write p then s.write p killed bs 0 else none
  | .piperead p n killed =>
    if s.call p = .none ∧ 0 < s.fds .read p then s.read p killed n else none
  | .resume p killed =>
    match s.call p with
    | .none => none
    | .pipewrite bs i => s.write p killed bs i
    | .piperead n => s.read p killed n
  | .share p q e =>
    if s.call p = .none ∧ 0 < s.fds e p then some (s.setFds e q (s.fds e q + 1), .quiet) else none
  | .close p e =>
    if s.call p = .none ∧ 0 < s.fds e p then some (s.close p e, .quiet) else none

/-- After `pipe` returned both ends to `p`. -/
def opened (page : Nat → UInt8) (p : π) : State π where
  pipe := some (pipealloc page)
  fds _ := update (fun _ => 0) p 1
  call _ := .none
  accepted := []
  returned := []

/-- Runs of steps, each with what it told its process. -/
abbrev Steps (s : State π) (as : List (Act π × Reply)) (t : State π) : Prop :=
  Runs.Run (fun s a t => step s a.1 = some (t, a.2)) s as t

end Processes

/-! ## The buffer is a queue -/

/-- The bytes in the buffer, oldest first. -/
def Pipe.Queued (p : Pipe) (q : List UInt8) : Prop :=
  RingBuffer.Holds PIPESIZE UINT p.data p.nread p.nwrite q

variable {p : Pipe} {q : List UInt8}

lemma PIPESIZE_lt : PIPESIZE < UINT := by decide

lemma PIPESIZE_dvd : PIPESIZE ∣ UINT := ⟨2 ^ 23, by decide⟩

lemma Pipe.Queued.full_iff (h : p.Queued q) : p.full ↔ q.length = PIPESIZE := by
  rw [full, beq_iff_eq, RingBuffer.Holds.full_iff h PIPESIZE_lt]

lemma Pipe.Queued.empty_iff (h : p.Queued q) : p.empty ↔ q = [] := by
  rw [empty, beq_iff_eq, RingBuffer.Holds.empty_iff h PIPESIZE_lt]

lemma Pipe.Queued.buffered (h : p.Queued q) : p.buffered = q.length :=
  RingBuffer.Holds.length_eq h PIPESIZE_lt

lemma Pipe.Queued.fill {bs : List UInt8} (h : p.Queued q) :
    (p.fill bs).1.Queued (q ++ bs.take (p.fill bs).2) := by
  induction bs generalizing p q with
  | nil => simpa [fill] using h
  | cons b bs ih => ?_
  by_cases hf : p.full
  · simpa [fill, hf] using h
  have hlt : q.length < PIPESIZE :=
    Nat.lt_of_le_of_ne h.bound fun hq => hf (h.full_iff.mpr hq)
  have hstore : (p.store b).Queued (q ++ [b]) := RingBuffer.Holds.push h PIPESIZE_dvd hlt b
  simpa [fill, hf] using ih hstore

lemma Pipe.fill_isOpen (bs : List UInt8) (e : End) : (p.fill bs).1.isOpen e = p.isOpen e := by
  induction bs generalizing p with
  | nil => rfl
  | cons b bs ih => ?_
  by_cases hf : p.full
  · simp [fill, hf]
  simp only [fill, hf, Bool.false_eq_true, if_false]
  rw [ih]
  cases e <;> rfl

lemma Pipe.Queued.drain {n : Nat} (h : p.Queued q) :
    (p.drain n).2 = q.take n ∧ (p.drain n).1.Queued (q.drop n) := by
  induction n generalizing p q with
  | zero => exact ⟨by simp [drain], by simpa [drain] using h⟩
  | succ n ih => ?_
  cases q with
  | nil => simpa [drain, h.empty_iff] using h
  | cons b q => ?_
  have hne : ¬ p.empty := fun he => by simpa using h.empty_iff.mp he
  obtain ⟨hb, hpop⟩ := RingBuffer.Holds.pop h PIPESIZE_dvd (by decide)
  obtain ⟨htake, hdrop⟩ := ih (p := p.fetch.2) hpop
  refine ⟨?_, ?_⟩
  · rw [drain, if_neg hne, take_succ_cons, ← htake, ← show p.fetch.1 = b from hb]
  · simpa [drain, hne] using hdrop

lemma Pipe.drain_isOpen (n : Nat) (e : End) : (p.drain n).1.isOpen e = p.isOpen e := by
  induction n generalizing p with
  | zero => rfl
  | succ n ih => ?_
  by_cases hf : p.empty
  · simp [drain, hf]
  simp only [drain, hf, Bool.false_eq_true, if_false]
  rw [ih]
  cases e <;> rfl

lemma Pipe.pipewrite_fill (killed : Bool) (bs : List UInt8) (i : Nat) :
    ∃ o, p.pipewrite killed bs i = ((p.fill (bs.drop i)).1, (p.fill (bs.drop i)).2, o) := by
  simp only [pipewrite]
  split
  · exact ⟨_, rfl⟩
  · split <;> exact ⟨_, rfl⟩

/-- A stretch of `piperead` takes nothing unless it returns, and then it
returns the oldest bytes. -/
lemma Pipe.Queued.piperead (h : p.Queued q) (killed : Bool) (n : Nat) :
    (p.piperead killed n = (p, .fails) ∨ p.piperead killed n = (p, .sleeps)) ∨
      ((q = [] → p.writeopen = false) ∧
        p.piperead killed n = ((p.drain n).1, .returns (q.take n))) := by
  by_cases hw : p.empty ∧ p.writeopen
  · refine .inl ?_
    cases killed <;> simp [Pipe.piperead, hw]
  refine .inr ⟨fun hq => ?_, ?_⟩
  · simpa [h.empty_iff.mpr hq] using hw
  · rw [Pipe.piperead, if_neg hw, ← h.drain.1]

variable {e : End}

lemma Pipe.pipeclose_isOpen {e' : End} (he : e' ≠ e) (ho : p.isOpen e' = true) :
    ∃ y, p.pipeclose e = some y ∧ y.isOpen e' = true := by
  cases e <;> cases e' <;> simp_all [pipeclose, isOpen]

lemma Pipe.Queued.pipeclose {y : Pipe} (h : p.Queued q) (hy : p.pipeclose e = some y) :
    y.Queued q := by
  cases e <;> simp only [pipeclose, ite_none_left_eq_some, some.injEq] at hy <;>
    obtain ⟨-, rfl⟩ := hy <;> exact h

/-! ## Runs -/

section Runs

variable {π : Type}

/-- A process has a descriptor of every end it uses, an end that somebody
has a descriptor of is open, and the buffer holds what was accepted and
not yet returned. -/
structure Inv (s : State π) : Prop where
  held : ∀ e p, 0 < s.fds e p → ∃ x, s.pipe = some x ∧ x.isOpen e = true
  writing : ∀ p bs i, s.call p = .pipewrite bs i → 0 < s.fds .write p
  reading : ∀ p n, s.call p = .piperead n → 0 < s.fds .read p
  queue : ∃ q, s.accepted = s.returned ++ q ∧ ∀ x, s.pipe = some x → x.Queued q

variable [DecidableEq π]

lemma Inv.start (page : Nat → UInt8) (p : π) : Inv (opened page p) where
  held e _ _ := ⟨_, rfl, by cases e <;> rfl⟩
  writing _ _ _ h := by cases h
  reading _ _ h := by cases h
  queue := ⟨[], rfl, by rintro _ ⟨⟩; exact RingBuffer.holds_nil _ (show 0 < UINT by decide)⟩

variable {s t : State π} {r : Reply} {p : π}

lemma Inv.write {killed : Bool} {bs : List UInt8} {i : Nat} (h : Inv s) (hp : 0 < s.fds .write p)
    (hs : s.write p killed bs i = some (t, r)) : Inv t := by
  obtain ⟨x, hx, he⟩ := map_eq_some_iff.mp hs
  obtain ⟨o, ho⟩ := x.pipewrite_fill killed bs i
  rw [ho] at he
  obtain ⟨rfl, rfl⟩ := Prod.mk.inj he
  refine ⟨fun e p' hp' => ?_, fun p' bs' i' hc => ?_, fun p' n hc => ?_, ?_⟩
  · obtain ⟨x', hx', hopen⟩ := h.held e p' hp'
    obtain rfl : x = x' := by simpa [hx] using hx'
    exact ⟨_, rfl, by rw [fill_isOpen, hopen]⟩
  · by_cases heq : p' = p
    · exact heq ▸ hp
    · exact h.writing p' bs' i' (by simpa [update_of_ne heq] using hc)
  · by_cases heq : p' = p
    · subst heq
      cases o <;> simp at hc
    · exact h.reading p' n (by simpa [update_of_ne heq] using hc)
  obtain ⟨q, hacc, hq⟩ := h.queue
  refine ⟨q ++ (bs.drop i).take (x.fill (bs.drop i)).2, ?_, ?_⟩
  · rw [hacc, append_assoc]
  rintro _ ⟨⟩
  exact (hq x hx).fill

lemma Inv.read {killed : Bool} {n : Nat} (h : Inv s) (hp : 0 < s.fds .read p)
    (hs : s.read p killed n = some (t, r)) :
    Inv t ∧ (r = .read n (.returns []) → n = 0 ∨
      ∃ x, s.pipe = some x ∧ x.empty ∧ x.writeopen = false) := by
  obtain ⟨x, hx, he⟩ := map_eq_some_iff.mp hs
  obtain ⟨q, hacc, hq⟩ := h.queue
  have hcall : ∀ c : Call, (∀ bs i, c ≠ .pipewrite bs i) → ∀ p' bs i,
      update s.call p c p' = .pipewrite bs i → 0 < s.fds .write p' := by
    intro c hc p' bs i hu
    by_cases heq : p' = p
    · subst heq
      exact absurd (by simpa using hu) (hc bs i)
    · exact h.writing p' bs i (by rwa [update_of_ne heq] at hu)
  have hcall' : ∀ (c : Call) p' n, update s.call p c p' = .piperead n → 0 < s.fds .read p' := by
    intro c p' n hu
    by_cases heq : p' = p
    · exact heq ▸ hp
    · exact h.reading p' n (by rwa [update_of_ne heq] at hu)
  rcases (hq x hx).piperead killed n with (ho | ho) | ⟨hclosed, ho⟩ <;> rw [ho] at he <;>
    obtain ⟨rfl, rfl⟩ := Prod.mk.inj he
  · refine ⟨⟨fun e p' hp' => hx ▸ h.held e p' hp', hcall _ (by simp), hcall' _, q, ?_, ?_⟩,
      fun hr => by cases hr⟩
    · simpa [Reply.bytes] using hacc
    rintro _ ⟨⟩
    exact hq x hx
  · refine ⟨⟨fun e p' hp' => hx ▸ h.held e p' hp', hcall _ (by simp), hcall' _, q, ?_, ?_⟩,
      fun hr => by cases hr⟩
    · simpa [Reply.bytes] using hacc
    rintro _ ⟨⟩
    exact hq x hx
  · refine ⟨⟨fun e p' hp' => ?_, hcall _ (by simp), hcall' _, q.drop n, ?_, ?_⟩, fun hr => ?_⟩
    · obtain ⟨x', hx', hopen⟩ := h.held e p' hp'
      obtain rfl : x = x' := by simpa [hx] using hx'
      exact ⟨_, rfl, by rw [drain_isOpen, hopen]⟩
    · simp [Reply.bytes, hacc]
    · rintro _ ⟨⟩
      exact (hq x hx).drain.2
    -- Nothing was returned: nothing was asked for or nothing was there.
    have htake : q.take n = [] := by simpa using hr
    rcases take_eq_nil_iff.mp htake with hn | hnil
    · exact .inl hn
    · exact .inr ⟨x, hx, (hq x hx).empty_iff.mpr hnil, hclosed hnil⟩

lemma setFds_same (s : State π) (e : End) (p : π) (n : Nat) : (s.setFds e p n).fds e p = n := by
  simp [State.setFds]

lemma setFds_le {e' : End} {p' : π} {n : Nat} (hn : n ≤ s.fds e p) :
    (s.setFds e p n).fds e' p' ≤ s.fds e' p' := by
  by_cases he : e' = e
  · subst he
    by_cases hp : p' = p
    · subst hp
      rwa [setFds_same]
    · simp [State.setFds, update_of_ne hp]
  · simp [State.setFds, update_of_ne he]

lemma setFds_other {e' : End} {p' : π} {n : Nat} (h : ¬ (e' = e ∧ p' = p)) :
    (s.setFds e p n).fds e' p' = s.fds e' p' := by
  by_cases he : e' = e
  · subst he
    have hp : p' ≠ p := fun hp => h ⟨rfl, hp⟩
    simp [State.setFds, update_of_ne hp]
  · simp [State.setFds, update_of_ne he]

lemma Inv.share {q : π} (h : Inv s) (hp : 0 < s.fds e p) : Inv (s.setFds e q (s.fds e q + 1)) := by
  have hle : ∀ e' p', s.fds e' p' ≤ (s.setFds e q (s.fds e q + 1)).fds e' p' := by
    intro e' p'
    by_cases heq : e' = e ∧ p' = q
    · obtain ⟨rfl, rfl⟩ := heq
      rw [setFds_same]
      omega
    · rw [setFds_other heq]
  refine ⟨fun e' p' hp' => ?_, fun p' bs i hc => lt_of_lt_of_le (h.writing p' bs i hc) (hle _ _),
    fun p' n hc => lt_of_lt_of_le (h.reading p' n hc) (hle _ _), h.queue⟩
  by_cases heq : e' = e ∧ p' = q
  · exact heq.1 ▸ h.held e p hp
  rw [setFds_other heq] at hp'
  exact h.held e' p' hp'

variable [Fintype π]

lemma Inv.close (h : Inv s) (hidle : s.call p = .none) : Inv (s.close p e) := by
  -- A process inside a call is not the one that closes.
  have hfds : ∀ e' p', s.call p' ≠ .none → 0 < s.fds e' p' →
      0 < (s.setFds e p (s.fds e p - 1)).fds e' p' := by
    intro e' p' hc hp'
    have hne : ¬ (e' = e ∧ p' = p) := fun heq => hc (heq.2 ▸ hidle)
    rwa [setFds_other hne]
  have hw : ∀ p' bs i, s.call p' = .pipewrite bs i →
      0 < (s.setFds e p (s.fds e p - 1)).fds .write p' :=
    fun p' bs i hc => hfds _ _ (by simp [hc]) (h.writing p' bs i hc)
  have hr : ∀ p' n, s.call p' = .piperead n → 0 < (s.setFds e p (s.fds e p - 1)).fds .read p' :=
    fun p' n hc => hfds _ _ (by simp [hc]) (h.reading p' n hc)
  have hmore : ∀ e' p', 0 < (s.setFds e p (s.fds e p - 1)).fds e' p' → 0 < s.fds e' p' :=
    fun e' p' hp' => lt_of_lt_of_le hp' (setFds_le (Nat.sub_le _ _))
  simp only [State.close]
  split
  case isTrue hlast =>
    refine ⟨fun e' p' hp' => ?_, hw, hr, ?_⟩
    · have hne : e' ≠ e := by
        rintro rfl
        exact absurd (hlast p') (Nat.ne_of_gt hp')
      obtain ⟨x, hx, hopen⟩ := h.held e' p' (hmore e' p' hp')
      obtain ⟨y, hy, hopen'⟩ := x.pipeclose_isOpen hne hopen
      exact ⟨y, by simp [State.setFds, hx, hy], hopen'⟩
    · obtain ⟨q, hacc, hq⟩ := h.queue
      refine ⟨q, hacc, fun y hy => ?_⟩
      obtain ⟨x, hx, hclose⟩ := bind_eq_some_iff.mp hy
      exact (hq x hx).pipeclose hclose
  case isFalse => exact ⟨fun e' p' hp' => h.held e' p' (hmore e' p' hp'), hw, hr, h.queue⟩

/-- What a step can be, whether a call begins or goes on. -/
lemma step_cases {a : Act π} (hs : step s a = some (t, r)) :
    (∃ p killed bs i, (0 < s.fds .write p ∨ s.call p = .pipewrite bs i) ∧
      s.write p killed bs i = some (t, r)) ∨
    (∃ p killed n, (0 < s.fds .read p ∨ s.call p = .piperead n) ∧
      s.read p killed n = some (t, r)) ∨
    r = .quiet ∧ ((∃ p q e, 0 < s.fds e p ∧ t = s.setFds e q (s.fds e q + 1)) ∨
      ∃ p e, s.call p = .none ∧ t = s.close p e) := by
  cases a with
  | pipewrite p bs killed =>
    obtain ⟨hg, hs⟩ := ite_none_right_eq_some.mp hs
    exact .inl ⟨p, killed, bs, 0, .inl hg.2, hs⟩
  | piperead p n killed =>
    obtain ⟨hg, hs⟩ := ite_none_right_eq_some.mp hs
    exact .inr (.inl ⟨p, killed, n, .inl hg.2, hs⟩)
  | resume p killed =>
    cases hc : s.call p with
    | none => simp [step, hc] at hs
    | pipewrite bs i => exact .inl ⟨p, killed, bs, i, .inr hc, by simpa [step, hc] using hs⟩
    | piperead n => exact .inr (.inl ⟨p, killed, n, .inr hc, by simpa [step, hc] using hs⟩)
  | share p q e =>
    obtain ⟨hg, hs⟩ := ite_none_right_eq_some.mp hs
    obtain ⟨rfl, rfl⟩ := Prod.mk.inj (some.inj hs)
    exact .inr (.inr ⟨rfl, .inl ⟨p, q, e, hg.2, rfl⟩⟩)
  | close p e =>
    obtain ⟨hg, hs⟩ := ite_none_right_eq_some.mp hs
    obtain ⟨rfl, rfl⟩ := Prod.mk.inj (some.inj hs)
    exact .inr (.inr ⟨rfl, .inr ⟨p, e, hg.1, rfl⟩⟩)

/-- Every step keeps the invariant, and a read that returns no bytes was
asked for none or found the pipe empty and closed for writing. -/
lemma Inv.step {a : Act π} (h : Inv s) (hs : step s a = some (t, r)) :
    Inv t ∧ ∀ n, r = .read n (.returns []) → n = 0 ∨
      ∃ x, s.pipe = some x ∧ x.empty ∧ x.writeopen = false := by
  rcases step_cases hs with ⟨p, killed, bs, i, hp, hw⟩ | ⟨p, killed, n, hp, hr⟩ | ⟨rfl, hquiet⟩
  · refine ⟨h.write (hp.elim id (h.writing p bs i)) hw, fun n hr => ?_⟩
    obtain ⟨x, -, he⟩ := map_eq_some_iff.mp hw
    cases (congrArg Prod.snd he).trans hr
  · obtain ⟨hinv, hnone⟩ := h.read (hp.elim id (h.reading p n)) hr
    refine ⟨hinv, fun m hm => ?_⟩
    obtain ⟨x, -, he⟩ := map_eq_some_iff.mp hr
    obtain ⟨rfl, -⟩ := Reply.read.inj ((congrArg Prod.snd he).trans hm)
    exact hnone hm
  refine ⟨?_, fun n hr => by cases hr⟩
  rcases hquiet with ⟨p, q, e, hp, rfl⟩ | ⟨p, e, hidle, rfl⟩
  · exact h.share hp
  · exact h.close hidle

lemma step_returned {a : Act π} (hs : Pipes.step s a = some (t, r)) :
    t.returned = s.returned ++ r.bytes := by
  rcases step_cases hs with ⟨p, killed, bs, i, -, hw⟩ | ⟨p, killed, n, -, hr⟩ | ⟨rfl, hquiet⟩
  · obtain ⟨x, -, he⟩ := map_eq_some_iff.mp hw
    obtain ⟨rfl, rfl⟩ := Prod.mk.inj he
    exact (append_nil _).symm
  · obtain ⟨x, -, he⟩ := map_eq_some_iff.mp hr
    obtain ⟨rfl, rfl⟩ := Prod.mk.inj he
    rfl
  rcases hquiet with ⟨p, q, e, -, rfl⟩ | ⟨p, e, -, rfl⟩
  · exact (append_nil _).symm
  simp only [State.close]
  split <;> exact (append_nil _).symm

lemma steps_returned {as : List (Act π × Reply)} (h : Steps s as t) :
    t.returned = s.returned ++ as.flatMap (·.2.bytes) := by
  induction h with
  | nil => exact (append_nil _).symm
  | cons hs _ ih => rw [ih, step_returned hs, flatMap_cons, append_assoc]

lemma Inv.steps {page : Nat → UInt8} {as : List (Act π × Reply)} (h : Steps (opened page p) as s)
    : Inv s :=
  h.invariant (.start page p) fun _ _ _ hi hs => (hi.step hs).1

/-- A pipe is a FIFO byte stream of bounded length, whoever uses it. -/
theorem pipe_fifo {page : Nat → UInt8} {p : π} {as : List (Act π × Reply)}
    (h : Steps (opened page p) as s) :
    as.flatMap (·.2.bytes) <+: s.accepted ∧ (∀ x, s.pipe = some x → x.buffered ≤ PIPESIZE ∧
        s.accepted.length = (as.flatMap (·.2.bytes)).length + x.buffered) ∧
      ∀ a t n, Pipes.step s a = some (t, .read n (.returns [])) →
        n = 0 ∨ ∃ x, s.pipe = some x ∧ x.buffered = 0 ∧ x.writeopen = false := by
  have hi := Inv.steps h
  obtain ⟨q, hacc, hq⟩ := hi.queue
  rw [steps_returned h, show (opened page p).returned = [] from rfl, nil_append] at hacc
  refine ⟨⟨q, hacc.symm⟩, fun x hx => ?_, fun a t n hs => ?_⟩
  · rw [(hq x hx).buffered, hacc, length_append]
    exact ⟨(hq x hx).bound, rfl⟩
  refine ((hi.step hs).2 n rfl).imp_right fun ⟨x, hx, he, hw⟩ => ⟨x, hx, ?_, hw⟩
  rw [(hq x hx).buffered, (hq x hx).empty_iff.mp he, length_nil]

/-- A parent writes two bytes and closes its end, its child reads three. -/
def parentChild : List (Act (Fin 2) × Reply) :=
  [(.share 0 1 .read, .quiet), (.piperead 1 3 false, .read 3 .sleeps),
    (.pipewrite 0 [7, 8] false, .wrote (.returns 2)), (.close 0 .write, .quiet),
    (.resume 1 false, .read 3 (.returns [7, 8])), (.piperead 1 3 false, .read 3 (.returns []))]

theorem pipe_fifo_parentChild :
    ∃ s, Steps (opened (fun _ => 0) (0 : Fin 2)) parentChild s ∧ s.accepted = [7, 8] ∧
      parentChild.flatMap (·.2.bytes) <+: s.accepted := by
  refine Exists.imp (p := fun s => _ ∧ _) (fun s h => ⟨h.1, h.2, (pipe_fifo h.1).1⟩) ?_
  exact ⟨_, .cons rfl (.cons rfl (.cons rfl (.cons rfl (.cons rfl (.cons rfl .nil))))), rfl⟩

end Runs

end Proninx.Pipes
