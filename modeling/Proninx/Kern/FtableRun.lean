import Proninx.Kern.Ftable

/-!
# Open-file accounting

Every process holds references to entries of the file table: one for each
descriptor, and in the middle of a call those in local variables; a slot
that `dup` has filled before `filedup`, or that `exit` has not cleared
after `fileclose`, has no reference behind it. The counts of the entries
are the sums of these references at every moment of every run, the ends of
a pipe that are open are those that an entry or a `fileclose` in progress
stands for, and from that follow the absence of panics and the lifetime of
the pages.
-/

namespace Proninx.Ftable

open Finset Function List Nat Option State

variable {π : Type}

/-! ## What a process holds -/

/-- Descriptors of a table that lead to `f`. -/
def slots (o : Fd → Option FileId) (f : FileId) : Nat := ∑ fd, if o fd = some f then 1 else 0

lemma slots_update (o : Fd → Option FileId) (fd : Fd) (v : Option FileId) (f : FileId) :
    slots (update o fd v) f + (if o fd = some f then 1 else 0) =
      slots o f + (if v = some f then 1 else 0) := by
  have h := RefCount.sum_off (fun fd => if o fd = some f then 1 else 0)
    (fun fd' => if update o fd v fd' = some f then 1 else 0) fd
    fun j hj => by rw [update_of_ne hj]
  rw [update_self] at h
  exact h

variable {o : Fd → Option FileId} {fd : Fd}

lemma slots_fill (h : o fd = none) (f g : FileId) :
    slots (update o fd (some f)) g = slots o g + if g = f then 1 else 0 := by
  have hu := slots_update o fd (some f) g
  simpa [h, eq_comm] using hu

variable {f : FileId}

lemma slots_clear (h : o fd = some f) (g : FileId) :
    slots o g = slots (update o fd none) g + if g = f then 1 else 0 := by
  have hu := slots_update o fd none g
  simpa [h, eq_comm] using hu.symm

lemma slots_pos (h : o fd = some f) : 0 < slots o f := by
  have hle := Finset.single_le_sum (f := fun fd => if o fd = some f then 1 else 0)
    (fun _ _ => zero_le _) (Finset.mem_univ fd)
  rw [if_pos h] at hle
  exact hle

lemma count_cons_ite (f g : FileId) (fs : List FileId) :
    (f :: fs).count g = fs.count g + if g = f then 1 else 0 := by
  rw [count_cons]
  exact congrArg _ (if_congr (by rw [beq_iff_eq, eq_comm]) rfl rfl)

def Pc.locals : Pc π → List FileId
  | .close fs => fs
  | .openFd f _ _ => [f]
  | .pipeSecond f0 => [f0]
  | .pipePage f0 f1 => [f0, f1]
  | .pipeFds f0 f1 => [f0, f1]
  | .forkStore _ f _ _ => [f]
  | _ => []

open Pc

/-- The slots without a reference behind them. -/
def Pc.stale (o : Fd → Option FileId) : Pc π → List FileId
  | .dup f => [f]
  | .exitClear fd _ => (o fd).toList
  | _ => []

def Proc.held (x : Proc π) (f : FileId) : Nat :=
  slots x.ofile f + x.pc.locals.count f - (x.pc.stale x.ofile).count f

open Proc

/-- Entries taken by `filealloc` that nothing was stored into yet. -/
def Pc.fresh : Pc π → List FileId
  | .openFd f _ _ => [f]
  | .openSet f _ _ => [f]
  | .pipeSecond f0 => [f0]
  | .pipePage f0 f1 => [f0, f1]
  | _ => []

/-- The new process and the descriptors it does not have yet. -/
def Pc.copying : Pc π → Option (π × List Fd)
  | .fork np fds => some (np, fds)
  | .forkStore np _ fd fds => some (np, fd :: fds)
  | _ => none

/-- The descriptors `exit` did not clear yet. -/
def Pc.exiting : Pc π → Option (List Fd)
  | .exit fds => some fds
  | .exitClear fd fds => some (fd :: fds)
  | _ => none

/-- What is known about one process by itself. -/
structure Proc.Ok (x : Proc π) : Prop where
  live : x.status ≠ .live → x.pc = .idle
  idle : x.pc = .idle → x.closing = none
  blank : x.status = .unused ∨ x.status = .zombie → ∀ fd, x.ofile fd = none
  dup : ∀ f, x.pc = .dup f → 2 ≤ slots x.ofile f
  opens : ∀ f r w, x.pc = .openSet f r w → 0 < slots x.ofile f
  exits : ∀ fds, x.pc.exiting = some fds → ∀ fd, fd ∉ fds → x.ofile fd = none

/-- Process or entry `h` stands for the end `u` of a pipe. -/
def State.Holds (s : State π) : FileId ⊕ π → Nat × Bool → Prop
  | .inl f, u => (s.file f).kind = .pipe u.1 ∧ (s.file f).writable = u.2
  | .inr p, u => (s.proc p).closing = some u

def State.IsOpen (s : State π) (u : Nat × Bool) : Prop :=
  ∃ x, s.pipe u.1 = some x ∧ x.isOpen (endOf u.2) = true

/-- A page that was taken is back once, or has an open end. -/
def State.PageOk (s : State π) (k : Nat) : Prop :=
  match s.pipe k with
  | some x => k < s.created ∧ s.frees k = 0 ∧ (x.readopen = true ∨ x.writeopen = true)
  | none => s.frees k = if k < s.created then 1 else 0

variable {s t : State π} {x : Proc π} {f0 f1 : FileId}

lemma Proc.Ok.held_fresh (h : x.Ok) (hf : f ∈ x.pc.fresh) : 0 < x.held f := by
  cases hpc : x.pc <;> simp only [hpc, fresh, List.mem_cons, List.not_mem_nil, or_false] at hf
  case openFd => simp [held, hpc, locals, stale, hf]
  case openSet g r w => simpa [held, hpc, locals, stale, hf] using h.opens g r w hpc
  case pipeSecond => simp [held, hpc, locals, stale, hf]
  case pipePage => rcases hf with rfl | rfl <;> simp [held, hpc, locals, stale]

lemma Proc.Ok.of_live (hl : x.status = .live) (hidle : x.pc = .idle → x.closing = none)
    (hdup : ∀ f, x.pc = .dup f → 2 ≤ slots x.ofile f)
    (hopens : ∀ f r w, x.pc = .openSet f r w → 0 < slots x.ofile f)
    (hexits : ∀ fds, x.pc.exiting = some fds → ∀ fd ∉ fds, x.ofile fd = none) : x.Ok where
  live h := absurd hl h
  idle := hidle
  blank h := by simp [hl] at h
  dup := hdup
  opens := hopens
  exits := hexits

lemma Proc.Ready.pc_eq (h : x.Ready) : x.pc = .idle := by
  have hpc := h.2
  cases hx : x.pc <;> simp_all

@[simp] lemma setFile_proc (s : State π) (f : FileId) (y : File) :
    (s.setFile f y).proc = s.proc :=
  rfl

@[simp] lemma filedup_proc (s : State π) (f : FileId) : (s.filedup f).proc = s.proc := by
  rw [filedup]
  split <;> rfl

lemma pipealloc_file (s : State π) (hne : f0 ≠ f1) (page : Nat → UInt8)
    (g : FileId) : (s.pipealloc f0 f1 page).file g =
      if g = f0 then
        { s.file g with kind := .pipe s.created, readable := true, writable := false }
      else if g = f1 then
        { s.file g with kind := .pipe s.created, readable := false, writable := true }
      else s.file g := by
  by_cases h0 : g = f0
  · subst h0
    simp [pipealloc, setFile, hne]
  by_cases h1 : g = f1
  · subst h1
    simp [pipealloc, setFile, h0]
  · simp [pipealloc, setFile, h0, h1]

variable {p np : π} {y : File}

section

variable [DecidableEq π]

/-- Process `p` becomes `x` and entry `f` becomes `y`. -/
structure Turn (s t : State π) (p : π) (x : Proc π) (f : FileId) (y : File) : Prop where
  file : ∀ g, t.file g = if g = f then y else s.file g
  proc : ∀ q, t.proc q = if q = p then x else s.proc q
  pipe : t.pipe = s.pipe
  created : t.created = s.created
  frees : t.frees = s.frees
  panic : t.panic = s.panic

lemma Turn.proc_ne {q : π} (h : Turn s t p x f y) (hq : q ≠ p) : t.proc q = s.proc q := by
  rw [h.proc, if_neg hq]

lemma Turn.proc_self (h : Turn s t p x f y) : t.proc p = x := by
  rw [h.proc, if_pos rfl]

@[simp] lemma put_proc_self (s : State π) (p : π) (x : Proc π) : (s.put p x).proc p = x :=
  update_self ..

@[simp] lemma put_put (s : State π) (p : π) (x y : Proc π) : (s.put p x).put p y = s.put p y := by
  simp [put]

lemma pair_proc (s : State π) (p np : π) (x z : Proc π) (q : π) :
    ((s.put np z).put p x).proc q = if q = p then x else if q = np then z else s.proc q := by
  simp only [put, update_apply]

lemma put_setPc (hne : np ≠ p) (s : State π) (z : Proc π) (pc : Pc π) :
    (s.put np z).setPc p pc = (s.put np z).put p { s.proc p with pc := pc } := by
  rw [setPc, show (s.put np z).proc p = s.proc p from update_of_ne hne.symm ..]

lemma turn_put (s : State π) (p : π) (x : Proc π) (f : FileId) (y : File) :
    Turn s ((s.setFile f y).put p x) p x f y where
  file _ := update_apply ..
  proc _ := update_apply ..
  pipe := rfl
  created := rfl
  frees := rfl
  panic := rfl

end

section Invariant

variable [Fintype π]

structure Inv (s : State π) : Prop where
  calm : s.panic = none
  ok : ∀ p, (s.proc p).Ok
  child : ∀ p np fds, (s.proc p).pc.copying = some (np, fds) →
    (s.proc np).status = .embryo ∧ fds.Nodup ∧ ∀ fd ∈ fds, (s.proc np).ofile fd = none
  once : ∀ p q np fds fds', (s.proc p).pc.copying = some (np, fds) →
    (s.proc q).pc.copying = some (np, fds') → p = q
  counted : RefCount.Counted (fun f => (s.file f).ref) fun p => (s.proc p).held
  free : ∀ f, (s.file f).ref = 0 → (s.file f).kind = .none
  fresh : ∀ p, ∀ f ∈ (s.proc p).pc.fresh, (s.file f).ref = 1 ∧ (s.file f).kind = .none
  ends : Ledger.Balanced (fun u => u.1 < s.created) (fun _ => False) s.IsOpen s.Holds
  pages : ∀ k, s.PageOk k

variable [DecidableEq π]

/-- A process that holds an entry or takes a free one meets no fresh entry
of another. -/
lemma Inv.fresh_ne (h : Inv s) {q : π} (hpq : q ≠ p) {g : FileId} (hg : g ∈ (s.proc q).pc.fresh)
    (hf : (s.file f).ref = 0 ∨ 0 < (s.proc p).held f) : g ≠ f := by
  rintro rfl
  have hone := (h.fresh q g hg).1
  rcases hf with hf | hf
  · omega
  have hsum := h.counted.add_le hpq g
  have hq := (h.ok q).held_fresh hg
  omega

/-- One process takes a step on its own: at most one entry changes, and it
is one that the process holds or takes. -/
lemma Inv.turn (h : Inv s) (ht : Turn s t p x f y) (hlive : (s.proc p).status ≠ .embryo)
    (hok : x.Ok) (hcopy : ∀ np fds, x.pc.copying = some (np, fds) →
      ∃ fds', (s.proc p).pc.copying = some (np, fds') ∧ fds.Sublist fds')
    (hcount : ∀ g, (t.file g).ref + (s.proc p).held g = (s.file g).ref + x.held g)
    (hfree : y.ref = 0 → y.kind = .none)
    (hfresh : ∀ g ∈ x.pc.fresh, (t.file g).ref = 1 ∧ (t.file g).kind = .none)
    (hmine : y = s.file f ∨ (s.file f).ref = 0 ∨ 0 < (s.proc p).held f)
    (hends : (x.closing = (s.proc p).closing ∧ ∀ u : Nat × Bool,
        (y.kind = .pipe u.1 ∧ y.writable = u.2) ↔
          (s.file f).kind = .pipe u.1 ∧ (s.file f).writable = u.2) ∨
      (s.proc p).closing = none ∧ y.kind = .none ∧
        ∃ k, (s.file f).kind = .pipe k ∧ x.closing = some (k, (s.file f).writable)) :
    Inv t := by
  -- What is copied was copied before, into the same process.
  have hcopied : ∀ q np fds, (t.proc q).pc.copying = some (np, fds) →
      ∃ fds', (s.proc q).pc.copying = some (np, fds') ∧ fds.Sublist fds' := by
    intro q np fds hq
    by_cases hqp : q = p
    · subst hqp
      exact hcopy np fds (by rwa [ht.proc_self] at hq)
    · exact ⟨fds, by rwa [ht.proc_ne hqp] at hq, List.Sublist.refl fds⟩
  refine ⟨ht.panic.trans h.calm, fun q => ?_, fun q np fds hq => ?_, fun q r np fds fds' hq hr => ?_,
    ?_, fun g hg => ?_, fun q g hg => ?_, ?_, fun k => ?_⟩
  · rw [ht.proc]
    split
    · exact hok
    · exact h.ok q
  · obtain ⟨fds', hq', hsub⟩ := hcopied q np fds hq
    obtain ⟨hemb, hnodup, hnone⟩ := h.child q np fds' hq'
    have hnp : np ≠ p := fun hnp => hlive (hnp ▸ hemb)
    rw [ht.proc_ne hnp]
    exact ⟨hemb, hnodup.sublist hsub, fun fd hfd => hnone fd (hsub.subset hfd)⟩
  · obtain ⟨_, hq', -⟩ := hcopied q np fds hq
    obtain ⟨_, hr', -⟩ := hcopied r np fds' hr
    exact h.once q r np _ _ hq' hr'
  · refine h.counted.one (p := p) (fun q hq g => ?_) fun g => ?_
    · rw [ht.proc_ne hq]
    rw [ht.proc_self]
    exact hcount g
  · rw [ht.file] at hg ⊢
    split at hg
    case isTrue heq => rw [if_pos heq]; exact hfree hg
    case isFalse heq => rw [if_neg heq]; exact h.free g hg
  · by_cases hqp : q = p
    · subst hqp
      exact hfresh g (by rwa [ht.proc_self] at hg)
    rw [ht.proc_ne hqp] at hg
    have hsame : t.file g = s.file g := by
      rw [ht.file]
      split
      case isTrue heq =>
        subst heq
        exact hmine.resolve_right fun hmine => h.fresh_ne hqp hg hmine rfl
      case isFalse => rfl
    rw [hsame]
    exact h.fresh q g hg
  · rw [ht.created]
    have hopen : ∀ u, t.IsOpen u ↔ s.IsOpen u := fun u => by rw [State.IsOpen, State.IsOpen, ht.pipe]
    rcases hends with ⟨hclosing, hkind⟩ | ⟨hnone, hkind, k, hk, hclosing⟩
    · refine h.ends.congr (fun u _ => hopen u) fun r u => ?_
      cases r with
      | inl g =>
        simp only [Holds, ht.file]
        split
        case isTrue heq => rw [hkind u, heq]
        case isFalse => rfl
      | inr q => ?_
      simp only [Holds, ht.proc]
      split
      case isTrue heq => rw [hclosing, heq]
      case isFalse => rfl
    -- The end passes from the entry to the process that closes it.
    refine (h.ends.congr (fun u _ => hopen u) fun _ _ => .rfl).move (p := .inl f) (q := .inr p)
      (b := (k, (s.file f).writable)) ⟨hk, rfl⟩ (fun u hu => ?_) fun r u => ?_
    · obtain ⟨hu1, hu2⟩ := hu
      rw [hk] at hu1
      exact Prod.ext (Kind.pipe.inj hu1).symm hu2.symm
    cases r with
    | inl g =>
      by_cases hg : g = f
      · simp [Holds, ht.file, hg, hkind]
      · simp [Holds, ht.file, hg]
    | inr q => ?_
    by_cases hq : q = p
    · simp [Holds, ht.proc, hq, hclosing, hnone, eq_comm]
    · simp [Holds, ht.proc, hq]
  · have hpage := h.pages k
    rwa [PageOk, ht.pipe, ht.created, ht.frees]

lemma Inv.pair (h : Inv s) {z : Proc π} (hne : np ≠ p) (hlive : (s.proc p).status ≠ .embryo)
    (hx : x.Ok) (hz : z.Ok) (hmine : ∀ q fds, (s.proc q).pc.copying = some (np, fds) → q = p)
    (hcopy : ∀ np' fds, x.pc.copying = some (np', fds) → np' = np ∧ z.status = .embryo ∧
      fds.Nodup ∧ ∀ fd ∈ fds, z.ofile fd = none) (hidle : z.pc.copying = none)
    (hheld : ∀ f, (s.proc p).held f + (s.proc np).held f = x.held f + z.held f)
    (hfresh : x.pc.fresh = [] ∧ z.pc.fresh = [])
    (hclosing : x.closing = (s.proc p).closing ∧ z.closing = (s.proc np).closing) :
    Inv ((s.put np z).put p x) := by
  have hproc := pair_proc s p np x z
  have hp : ((s.put np z).put p x).proc p = x := by rw [hproc, if_pos rfl]
  have hnp : ((s.put np z).put p x).proc np = z := by rw [hproc, if_neg hne, if_pos rfl]
  have hother : ∀ q ≠ p, q ≠ np → ((s.put np z).put p x).proc q = s.proc q := by
    intro q hq hqn
    rw [hproc, if_neg hq, if_neg hqn]
  have hsplit : ∀ q, q = p ∨ q = np ∨ ((s.put np z).put p x).proc q = s.proc q := by
    intro q
    by_cases hqp : q = p
    · exact .inl hqp
    by_cases hqn : q = np
    · exact .inr (.inl hqn)
    · exact .inr (.inr (hother q hqp hqn))
  -- Who copies is `p`, or copies into a process that stays as it is.
  have hcopied : ∀ q np' fds, (((s.put np z).put p x).proc q).pc.copying = some (np', fds) →
      q = p ∧ np' = np ∨ q ≠ p ∧ (s.proc q).pc.copying = some (np', fds) ∧ np' ≠ p ∧ np' ≠ np := by
    intro q np' fds hq
    by_cases hqp : q = p
    · subst hqp
      rw [hp] at hq
      exact .inl ⟨rfl, (hcopy np' fds hq).1⟩
    refine .inr ⟨hqp, ?_⟩
    by_cases hqn : q = np
    · subst hqn
      rw [hnp, hidle] at hq
      cases hq
    rw [hother q hqp hqn] at hq
    refine ⟨hq, ?_, ?_⟩
    · rintro rfl
      exact hlive (h.child q np' fds hq).1
    rintro rfl
    exact hqp (hmine q fds hq)
  refine ⟨h.calm, fun q => ?_, fun q np' fds hq => ?_, fun q r np' fds fds' hq hr => ?_, ?_, h.free,
    fun q f hf => ?_, ?_, h.pages⟩
  · rcases hsplit q with rfl | rfl | hq
    · rwa [hp]
    · rwa [hnp]
    rw [hq]
    exact h.ok q
  · rcases hcopied q np' fds hq with ⟨rfl, rfl⟩ | ⟨-, hq, hnep, hnen⟩
    · rw [hp] at hq
      rw [hnp]
      exact (hcopy np' fds hq).2
    · rw [hother np' hnep hnen]
      exact h.child q np' fds hq
  · rcases hcopied q np' fds hq with ⟨rfl, rfl⟩ | ⟨-, hq, -, hnen⟩ <;>
      rcases hcopied r np' fds' hr with ⟨rfl, hnr⟩ | ⟨-, hr, -, hnr⟩
    · rfl
    · exact absurd rfl hnr
    · exact absurd hnr hnen
    · exact h.once q r np' fds fds' hq hr
  · refine h.counted.move hne (fun q hqp hqn f => ?_) fun f => ?_
    · rw [hother q hqp hqn]
    rw [hp, hnp]
    exact hheld f
  · rcases hsplit q with rfl | rfl | hq
    · simp [hfresh.1] at hf
    · simp [hnp, hfresh.2] at hf
    · exact h.fresh q f (by rwa [hq] at hf)
  refine h.ends.congr (fun _ _ => .rfl) fun r u => ?_
  cases r with
  | inl f => rfl
  | inr q => ?_
  simp only [Holds]
  rcases hsplit q with rfl | rfl | hq
  · rw [hp, hclosing.1]
  · rw [hnp, hclosing.2]
  · rw [hq]

lemma isOpen_pipeclose (x : Pipes.Pipe) (e e' : Pipes.End) :
    (∃ y, x.pipeclose e = some y ∧ y.isOpen e' = true) ↔ x.isOpen e' = true ∧ e' ≠ e := by
  cases e <;> cases e' <;> simp [Pipes.Pipe.pipeclose, Pipes.Pipe.isOpen]

lemma some_of_pipeclose {x y : Pipes.Pipe} {e : Pipes.End} (h : x.pipeclose e = some y) :
    y.readopen ∨ y.writeopen := by
  cases e with
  | read =>
    obtain ⟨hor, heq⟩ := ite_none_left_eq_some.mp h
    cases heq
    exact .inr (by simpa using hor)
  | write => ?_
  obtain ⟨hor, heq⟩ := ite_none_left_eq_some.mp h
  cases heq
  exact .inl (by simpa using hor)

variable {w : Bool}

lemma endOf_inj {w' : Bool} : endOf w = endOf w' ↔ w = w' := by
  cases w <;> cases w' <;> decide

/-- `p` without the `pipeclose` it had to do. -/
def State.finish (s : State π) (p : π) (k : Nat) (y : Option Pipes.Pipe) : State π :=
  { s.put p { s.proc p with closing := none } with
    pipe := update s.pipe k y
    frees := update s.frees k (s.frees k + if y.isNone then 1 else 0) }

omit [Fintype π] in
lemma finish_proc (s : State π) (p q : π) (k : Nat) (y : Option Pipes.Pipe) :
    (s.finish p k y).proc q =
      { s.proc q with closing := if q = p then none else (s.proc q).closing } := by
  by_cases hq : q = p
  · subst hq
    simp [finish, put]
  · simp [finish, put, hq]

variable {k : Nat}

lemma Inv.pipeclose (h : Inv s) (hp : (s.proc p).closing = some (k, w)) :
    Inv ((s.put p { s.proc p with closing := none }).pipeclose k w) := by
  obtain ⟨x, hx, -⟩ : s.IsOpen (k, w) := h.ends.mark (p := .inr p) hp
  have heq : (s.put p { s.proc p with closing := none }).pipeclose k w =
      s.finish p k (x.pipeclose (endOf w)) := by
    simp [State.pipeclose, State.put, State.finish, hx]
  obtain ⟨hk, hfrees, -⟩ : k < s.created ∧ s.frees k = 0 ∧ (x.readopen ∨ x.writeopen) := by
    have hpage := h.pages k
    rwa [PageOk, hx] at hpage
  rw [heq]
  refine ⟨h.calm, fun q => ?_, fun q np fds hq => ?_, fun q r np fds fds' hq hr => ?_, ?_, h.free,
    fun q f hf => ?_, ?_, fun k' => ?_⟩
  · have hok := h.ok q
    rw [finish_proc]
    refine { hok with idle := fun hidle => ?_ }
    split
    · rfl
    · exact hok.idle hidle
  · simp only [finish_proc] at hq ⊢
    exact h.child q np fds hq
  · simp only [finish_proc] at hq hr
    exact h.once q r np fds fds' hq hr
  · have hheld : (fun q => ((s.finish p k (x.pipeclose (endOf w))).proc q).held) =
        fun q => (s.proc q).held := by
      funext q
      rw [finish_proc]
      rfl
    rw [hheld]
    exact h.counted
  · rw [finish_proc] at hf
    exact h.fresh q f hf
  · refine h.ends.drop (p := .inr p) (b := (k, w)) hp (fun u hu => ?_) (fun u _ => ?_) fun r u => ?_
    · exact (some.inj (hp.symm.trans hu)).symm
    · by_cases hu : u.1 = k
      · have hclose := isOpen_pipeclose x (endOf w) (endOf u.2)
        have hend : endOf u.2 ≠ endOf w ↔ u ≠ (k, w) := by simp [endOf_inj, Prod.ext_iff, hu]
        simp only [State.IsOpen, finish, hu, update_self, hx, some.injEq, exists_eq_left']
        rw [hclose, hend]
      · have hne : u ≠ (k, w) := fun hu' => hu (congrArg Prod.fst hu')
        simp [State.IsOpen, finish, update_of_ne hu, hne]
    · cases r with
      | inl f => simp [Holds, finish, put]
      | inr q => by_cases hq : q = p <;> simp [Holds, finish_proc, hq]
  · by_cases hkk : k' = k
    · subst hkk
      cases hy : x.pipeclose (endOf w) with
      | none => simp [PageOk, finish, put, hfrees, hk]
      | some y =>
        simpa [PageOk, finish, put, hfrees, hk] using some_of_pipeclose hy
    · have hpage := h.pages k'
      simpa [PageOk, finish, put, update_of_ne hkk] using hpage

omit [DecidableEq π] in
lemma Inv.pipePage_ne (h : Inv s) (hp : (s.proc p).pc = .pipePage f0 f1) : f0 ≠ f1 := by
  rintro rfl
  have hone := (h.fresh p f0 (by simp [hp, Pc.fresh])).1
  have hle := h.counted.le p f0
  simp only [hone, held, hp, locals, stale, count_cons_self, count_nil] at hle
  omega

omit [DecidableEq π] in
lemma Inv.pipealloc (h : Inv s) (hne : f0 ≠ f1) (page : Nat → UInt8)
    (h0 : (s.file f0).ref = 1 ∧ (s.file f0).kind = .none)
    (h1 : (s.file f1).ref = 1 ∧ (s.file f1).kind = .none)
    (hfresh : ∀ q, f0 ∉ (s.proc q).pc.fresh ∧ f1 ∉ (s.proc q).pc.fresh) :
    Inv (s.pipealloc f0 f1 page) := by
  have hfile := pipealloc_file s hne page
  have href : ∀ g, ((s.pipealloc f0 f1 page).file g).ref = (s.file g).ref := by
    intro g
    rw [hfile]
    split
    · rfl
    · split <;> rfl
  have hnopage : s.pipe s.created = none := by
    have hpage := h.pages s.created
    cases hx : s.pipe s.created with
    | none => rfl
    | some x => simp [PageOk, hx] at hpage
  have hclosed : ∀ w, ¬ s.IsOpen (s.created, w) := by
    rintro w ⟨x, hx, -⟩
    simp [hnopage] at hx
  have hpipe : ∀ k, (s.pipealloc f0 f1 page).pipe k =
      if k = s.created then some (Pipes.pipealloc page) else s.pipe k :=
    fun k => update_apply ..
  refine ⟨h.calm, h.ok, h.child, h.once, ?_, fun g hg => ?_, fun q g hg => ?_, ?_, fun k => ?_⟩
  · simp only [href]
    exact h.counted
  · rw [href] at hg
    rw [hfile, if_neg, if_neg]
    · exact h.free g hg
    · rintro rfl
      omega
    rintro rfl
    omega
  · rw [hfile, if_neg, if_neg]
    · exact h.fresh q g hg
    · rintro rfl
      exact (hfresh q).2 hg
    rintro rfl
    exact (hfresh q).1 hg
  · -- Two unmarked units come in and are taken.
    have hwide : Ledger.Balanced (fun u => u.1 < s.created + 1) (fun _ => False) s.IsOpen s.Holds := by
      refine h.ends.widen (fun u hu => lt_succ_of_lt hu) fun u hu hu' => ⟨?_, not_false⟩
      rw [← Prod.eta u, show u.1 = s.created by omega]
      exact hclosed u.2
    have htake : Ledger.Balanced (fun u => u.1 < s.created + 1) (fun _ => False)
        (fun u => s.IsOpen u ∨ u = (s.created, false))
        (fun r u => s.Holds r u ∨ r = .inl f0 ∧ u = (s.created, false)) :=
      hwide.take (lt_succ_self _) (hclosed false) (fun _ _ => .rfl) fun _ _ => .rfl
    refine htake.take (p := .inl f1) (b := (s.created, true)) (lt_succ_self _) ?_ (fun u _ => ?_)
      fun r u => ?_
    · simpa using hclosed true
    · obtain ⟨k, w⟩ := u
      by_cases hk : k = s.created
      · subst hk
        cases w <;> simp [State.IsOpen, hpipe, Pipes.Pipe.isOpen, Pipes.pipealloc, endOf]
      · simp [State.IsOpen, hpipe, hk]
    obtain ⟨k, w⟩ := u
    cases r with
    | inr q => simp [State.Holds, State.pipealloc, State.setFile]
    | inl g => ?_
    simp only [Holds, hfile]
    by_cases hg0 : g = f0
    · simp [hg0, h0.2, hne, @eq_comm _ s.created, @eq_comm _ false]
    by_cases hg1 : g = f1
    · simp [hg1, h1.2, hne.symm, @eq_comm _ s.created, @eq_comm _ true]
    · simp [hg0, hg1]
  · by_cases hk : k = s.created
    · subst hk
      have hpage := h.pages s.created
      rw [PageOk, hnopage] at hpage
      rw [PageOk, hpipe, if_pos rfl]
      exact ⟨lt_succ_self _, hpage.trans (if_neg (lt_irrefl _)), .inl rfl⟩
    have hpage := h.pages k
    rw [PageOk, hpipe, if_neg hk]
    rw [PageOk] at hpage
    cases hx : s.pipe k with
    | none =>
      simp only [hx] at hpage ⊢
      rw [show (s.pipealloc f0 f1 page).frees = s.frees from rfl, hpage]
      refine if_congr ⟨fun hlt => lt_succ_of_lt hlt, fun hlt => ?_⟩ rfl rfl
      exact lt_of_le_of_ne (le_of_lt_succ hlt) hk
    | some x =>
      simp only [hx] at hpage ⊢
      exact ⟨lt_succ_of_lt hpage.1, hpage.2⟩

/-! ## The steps -/

lemma Inv.moves (h : Inv s) (hlive : (s.proc p).status ≠ .embryo) (hok : x.Ok)
    (hcopy : ∀ np fds, x.pc.copying = some (np, fds) →
      ∃ fds', (s.proc p).pc.copying = some (np, fds') ∧ fds.Sublist fds')
    (hheld : ∀ g, x.held g = (s.proc p).held g) (hfresh : x.pc.fresh ⊆ (s.proc p).pc.fresh)
    (hclosing : x.closing = (s.proc p).closing) : Inv (s.put p x) := by
  have hfile : s.setFile ⟨0, by decide⟩ (s.file ⟨0, by decide⟩) = s := by simp [setFile]
  have ht := turn_put s p x ⟨0, by decide⟩ (s.file ⟨0, by decide⟩)
  rw [hfile] at ht
  refine h.turn ht hlive hok hcopy (fun g => ?_) (h.free _) (fun g hg => h.fresh p g (hfresh hg))
    (.inl rfl) (.inl ⟨hclosing, fun _ => .rfl⟩)
  rw [hheld]
  rfl

lemma Inv.filealloc (h : Inv s) (hf : s.findFile = some f) (hlive : (s.proc p).status ≠ .embryo)
    (hok : x.Ok) (hcopy : x.pc.copying = none)
    (hheld : ∀ g, x.held g = (s.proc p).held g + if g = f then 1 else 0)
    (hfresh : x.pc.fresh ⊆ f :: (s.proc p).pc.fresh) (hclosing : x.closing = (s.proc p).closing) :
    Inv ((s.setFile f { s.file f with ref := 1 }).put p x) := by
  have hzero : (s.file f).ref = 0 := by simpa using find?_some hf
  have hne : ∀ g ∈ (s.proc p).pc.fresh, g ≠ f := by
    rintro g hg rfl
    have hone := (h.fresh p g hg).1
    omega
  have ht := turn_put s p x f { s.file f with ref := 1 }
  refine h.turn ht hlive hok (fun np fds hc => by simp [hcopy] at hc) (fun g => ?_) nofun
    (fun g hg => ?_) (.inr (.inl hzero)) (.inl ⟨hclosing, fun _ => .rfl⟩)
  · rw [hheld, ht.file]
    split
    case isTrue heq => subst heq; simp only [hzero]; omega
    case isFalse => omega
  rw [ht.file]
  split
  case isTrue => exact ⟨rfl, h.free f hzero⟩
  case isFalse heq => exact h.fresh p g ((mem_cons.mp (hfresh hg)).resolve_left heq)

lemma Inv.filedup (h : Inv s) (hf : 0 < (s.proc p).held f) (hlive : (s.proc p).status ≠ .embryo)
    (hok : x.Ok) (hcopy : x.pc.copying = (s.proc p).pc.copying)
    (hheld : ∀ g, x.held g = (s.proc p).held g + if g = f then 1 else 0) (hfresh : x.pc.fresh = [])
    (hclosing : x.closing = (s.proc p).closing) : Inv ((s.filedup f).put p x) := by
  have hle := h.counted.le p f
  have heq : s.filedup f = s.setFile f { s.file f with ref := (s.file f).ref + 1 } := by
    rw [State.filedup, if_neg (by omega)]
  rw [heq]
  have ht := turn_put s p x f { s.file f with ref := (s.file f).ref + 1 }
  refine h.turn ht hlive hok (fun np fds hc => ⟨fds, hcopy ▸ hc, .refl fds⟩) (fun g => ?_) nofun
    (fun g hg => by simp [hfresh] at hg) (.inr (.inr hf)) (.inl ⟨hclosing, fun _ => .rfl⟩)
  rw [hheld, ht.file]
  split
  case isTrue heq => subst heq; simp only; omega
  case isFalse => omega

/-- `fileclose` under the lock: the last reference leaves the end of a
pipe with the process. -/
lemma Inv.fileclose (h : Inv s) {pc : Pc π} (hf : 0 < (s.proc p).held f)
    (hlive : (s.proc p).status ≠ .embryo) (hidle : (s.proc p).closing = none)
    (hok : ∀ c, ({ s.proc p with pc := pc, closing := c } : Proc π).Ok) (hcopy : pc.copying = none)
    (hheld : ∀ g, (s.proc p).held g =
      ({ s.proc p with pc := pc } : Proc π).held g + if g = f then 1 else 0)
    (hfresh : pc.fresh = []) : Inv ((s.fileclose p f).setPc p pc) := by
  have hle : (s.proc p).held f ≤ (s.file f).ref := h.counted.le p f
  have hmore : ∀ c (y : File), y.ref + 1 = (s.file f).ref →
      (c = (s.proc p).closing ∧ y = { s.file f with ref := y.ref } ∧ 0 < y.ref ∨
        y.kind = .none ∧ (c = (s.proc p).closing ∧ (∀ k, (s.file f).kind ≠ .pipe k) ∨
          ∃ k, (s.file f).kind = .pipe k ∧ c = some (k, (s.file f).writable))) →
      Inv ((s.setFile f y).put p { s.proc p with pc := pc, closing := c }) := by
    intro c y hy hc
    have ht := turn_put s p { s.proc p with pc := pc, closing := c } f y
    refine h.turn ht hlive (hok c) (fun np fds hc => by simp [hcopy] at hc) (fun g => ?_) (fun hz => ?_)
      (fun g hg => by simp [hfresh] at hg) (.inr (.inr hf)) ?_
    · have hg := hheld g
      rw [ht.file]
      simp only [held] at hg ⊢
      split at hg
      case isTrue heq => subst heq; rw [if_pos rfl]; omega
      case isFalse heq => rw [if_neg heq]; omega
    · rcases hc with ⟨-, -, hpos⟩ | ⟨hk, -⟩
      · omega
      · exact hk
    · rcases hc with ⟨hc, hyf, -⟩ | ⟨hk, ⟨hc, hnot⟩ | hend⟩
      · refine .inl ⟨hc, fun u => ?_⟩
        rw [hyf]
      · exact .inl ⟨hc, fun u => by simp [hk, hnot]⟩
      · exact .inr ⟨hidle, hk, hend⟩
  rw [State.fileclose, if_neg (by omega)]
  by_cases hpos : 0 < (s.file f).ref - 1
  · rw [if_pos hpos]
    exact hmore _ { s.file f with ref := (s.file f).ref - 1 } (by simp only; omega)
      (.inl ⟨rfl, rfl, hpos⟩)
  rw [if_neg hpos]
  have hlast : 0 + 1 = (s.file f).ref := by omega
  cases hk : (s.file f).kind with
  | none =>
    simp only [hk]
    exact hmore _ { s.file f with ref := 0, kind := .none } hlast
      (.inr ⟨rfl, .inl ⟨rfl, by simp [hk]⟩⟩)
  | inode =>
    simp only [hk]
    exact hmore _ { s.file f with ref := 0, kind := .none } hlast
      (.inr ⟨rfl, .inl ⟨rfl, by simp [hk]⟩⟩)
  | pipe k =>
    simp only [hk, setPc, put_put, put_proc_self]
    exact hmore _ { s.file f with ref := 0, kind := .none } hlast (.inr ⟨rfl, .inr ⟨k, hk, rfl⟩⟩)

lemma fdalloc_none (h : fdalloc o = some fd) : o fd = none := by
  simpa using find?_some h

section Calls

section

variable (h : Inv s)
include h

omit [DecidableEq π] in
lemma Inv.live {pc : Pc π} (hpc : (s.proc p).pc = pc) (hne : pc ≠ .idle) :
    (s.proc p).status = .live := by
  by_contra hl
  exact hne (hpc ▸ (h.ok p).live hl)

lemma Inv.start_dup (hl : (s.proc p).status = .live) (hpc : (s.proc p).pc = .idle) {fd' : Fd}
    (hf : (s.proc p).ofile fd = some f) (hfd : fdalloc (s.proc p).ofile = some fd') :
    Inv ((s.setSlot p fd' (some f)).setPc p (.dup f)) := by
  have hnone := fdalloc_none hfd
  simp only [setSlot, setPc, put_put, put_proc_self]
  refine h.moves (by simp [hl]) (.of_live hl nofun ?_ nofun nofun) nofun (fun g => ?_)
    (nil_subset _) rfl
  · rintro _ ⟨⟩
    have hpos := slots_pos hf
    simp only [slots_fill hnone, if_true]
    omega
  · simp only [held, hpc, locals, stale, slots_fill hnone, count_cons_ite, count_nil]
    omega

lemma Inv.dup (hpc : (s.proc p).pc = .dup f) (hc : (s.proc p).closing = none) :
    Inv ((s.filedup f).setPc p .idle) := by
  have htwo := (h.ok p).dup f hpc
  have hl := h.live hpc nofun
  rw [setPc, filedup_proc]
  refine h.filedup ?_ (by simp [hl]) (.of_live hl (fun _ => hc) nofun nofun nofun)
    (by simp [hpc, copying]) (fun g => ?_) rfl rfl
  · simp only [held, hpc, locals, stale, count_cons_ite, count_nil, if_true]
    omega
  simp only [held, hpc, locals, stale, count_cons_ite, count_nil]
  split
  case isTrue heq => subst heq; omega
  case isFalse => omega

lemma Inv.start_close (hl : (s.proc p).status = .live) (hpc : (s.proc p).pc = .idle)
    (hf : (s.proc p).ofile fd = some f) :
    Inv ((s.setSlot p fd none).setPc p (.close [f])) := by
  simp only [setSlot, setPc, put_put, put_proc_self]
  refine h.moves (by simp [hl]) (.of_live hl nofun nofun nofun nofun) nofun (fun g => ?_)
    (nil_subset _) rfl
  simp only [held, hpc, locals, stale, slots_clear hf, count_cons_ite, count_nil]
  omega

lemma Inv.close {fs : List FileId} (hpc : (s.proc p).pc = .close (f :: fs))
    (hc : (s.proc p).closing = none) : Inv ((s.fileclose p f).setPc p (.close fs)) := by
  have hl := h.live hpc nofun
  refine h.fileclose ?_ (by simp [hl]) hc (fun c => .of_live hl nofun nofun nofun nofun) rfl
    (fun g => ?_) rfl
  · simp [held, hpc, locals, stale]
  simp only [held, hpc, locals, stale, count_cons_ite, count_nil]
  omega

lemma Inv.return (hpc : (s.proc p).pc = .close []) (hc : (s.proc p).closing = none) :
    Inv (s.setPc p .idle) := by
  have hl := h.live hpc nofun
  refine h.moves (by simp [hl]) (.of_live hl (fun _ => hc) nofun nofun nofun) nofun (fun g => ?_)
    (nil_subset _) rfl
  simp [held, hpc, locals, stale]

lemma Inv.undo (hpc : (s.proc p).pc ≠ .idle) (hstale : (s.proc p).pc.stale (s.proc p).ofile = []) :
    Inv (s.setPc p (.close (s.proc p).pc.locals)) := by
  have hl := h.live rfl hpc
  refine h.moves (by simp [hl]) (.of_live hl nofun nofun nofun nofun) nofun (fun g => ?_)
    (nil_subset _) rfl
  rw [held, held, hstale]
  rfl

lemma Inv.start_alloc (hl : (s.proc p).status = .live) (hpc : (s.proc p).pc = .idle)
    (hf : s.findFile = some f) {pc : Pc π} (hnew : (∃ r w, pc = .openFd f r w) ∨ pc = .pipeSecond f)
    :
    Inv ((s.setFile f { s.file f with ref := 1 }).setPc p pc) := by
  rw [setPc, setFile_proc]
  rcases hnew with ⟨r, w, rfl⟩ | rfl
  · refine h.filealloc hf (by simp [hl]) (.of_live hl nofun nofun nofun nofun) rfl (fun g => ?_)
      (by simp [Pc.fresh]) rfl
    simp [held, hpc, Pc.locals, Pc.stale, count_cons_ite]
  refine h.filealloc hf (by simp [hl]) (.of_live hl nofun nofun nofun nofun) rfl (fun g => ?_)
    (by simp [Pc.fresh]) rfl
  simp [held, hpc, Pc.locals, Pc.stale, count_cons_ite]

lemma Inv.openFd {r : Bool} (hpc : (s.proc p).pc = .openFd f r w)
    (hfd : fdalloc (s.proc p).ofile = some fd) :
    Inv ((s.setSlot p fd (some f)).setPc p (.openSet f r w)) := by
  have hnone := fdalloc_none hfd
  have hl := h.live hpc nofun
  simp only [setSlot, setPc, put_put, put_proc_self]
  refine h.moves (by simp [hl]) (.of_live hl nofun nofun ?_ nofun) nofun (fun g => ?_)
    (by simp [hpc, Pc.fresh]) rfl
  · rintro _ _ _ ⟨⟩
    simp [slots_fill hnone]
  · simp [held, hpc, locals, stale, slots_fill hnone, count_cons_ite]

lemma Inv.openSet {r : Bool} (hpc : (s.proc p).pc = .openSet f r w)
    (hc : (s.proc p).closing = none) :
    Inv ((s.setFile f { s.file f with kind := .inode, readable := r, writable := w }).setPc p
      .idle) := by
  have hl := h.live hpc nofun
  have hmem : f ∈ (s.proc p).pc.fresh := by simp [hpc, Pc.fresh]
  obtain ⟨hone, hkind⟩ := h.fresh p f hmem
  rw [setPc, setFile_proc]
  have ht := turn_put s p { s.proc p with pc := .idle } f
    { s.file f with kind := .inode, readable := r, writable := w }
  refine h.turn ht (by simp [hl]) (.of_live hl (fun _ => hc) nofun nofun nofun) nofun (fun g => ?_)
    (fun hz => ?_) nofun (.inr (.inr ((h.ok p).held_fresh hmem))) (.inl ⟨rfl, fun u => ?_⟩)
  · have hheld : ({ s.proc p with pc := .idle } : Proc π).held g = (s.proc p).held g := by
      simp [held, hpc, locals, stale]
    rw [hheld, ht.file]
    split
    case isTrue heq => rw [heq]
    case isFalse => rfl
  · simp only at hz
    omega
  · simp [hkind]

lemma Inv.pipeSecond (hpc : (s.proc p).pc = .pipeSecond f0) (hf : s.findFile = some f1) :
    Inv ((s.setFile f1 { s.file f1 with ref := 1 }).setPc p (.pipePage f0 f1)) := by
  have hl := h.live hpc nofun
  rw [setPc, setFile_proc]
  refine h.filealloc hf (by simp [hl]) (.of_live hl nofun nofun nofun nofun) rfl (fun g => ?_)
    (by simp [hpc, Pc.fresh]) rfl
  simp only [held, hpc, Pc.locals, Pc.stale, count_cons_ite, count_nil]
  omega

lemma Inv.pipePage (hpc : (s.proc p).pc = .pipePage f0 f1) (page : Nat → UInt8) :
    Inv ((s.pipealloc f0 f1 page).setPc p (.pipeFds f0 f1)) := by
  have hl := h.live hpc nofun
  have hmem0 : f0 ∈ (s.proc p).pc.fresh := by simp [hpc, Pc.fresh]
  have hmem1 : f1 ∈ (s.proc p).pc.fresh := by simp [hpc, Pc.fresh]
  have hmoved : Inv (s.setPc p (.pipeFds f0 f1)) := by
    refine h.moves (by simp [hl]) (.of_live hl nofun nofun nofun nofun) nofun (fun g => ?_)
      (nil_subset _) rfl
    simp [held, hpc, locals, stale]
  refine hmoved.pipealloc (h.pipePage_ne hpc) page (h.fresh p f0 hmem0) (h.fresh p f1 hmem1) fun q => ?_
  by_cases hq : q = p
  · subst hq
    simp [setPc, Pc.fresh]
  have hproc : (s.setPc p (.pipeFds f0 f1)).proc q = s.proc q := update_of_ne hq ..
  rw [hproc]
  have hheld0 := (h.ok p).held_fresh hmem0
  have hheld1 := (h.ok p).held_fresh hmem1
  exact ⟨fun hg => h.fresh_ne hq hg (.inr hheld0) rfl, fun hg => h.fresh_ne hq hg (.inr hheld1) rfl⟩

lemma Inv.pipeFds (hpc : (s.proc p).pc = .pipeFds f0 f1) (hc : (s.proc p).closing = none) :
    Inv (s.pipeFds p f0 f1) := by
  have hl := h.live hpc nofun
  have hundo : Inv (s.setPc p (.close [f0, f1])) := by
    have hu := h.undo (p := p) (by simp [hpc]) (by simp [hpc, stale])
    rwa [hpc] at hu
  rw [State.pipeFds]
  cases hfd0 : fdalloc (s.proc p).ofile with
  | none => exact hundo
  | some fd0 => ?_
  simp only
  cases hfd1 : fdalloc (update (s.proc p).ofile fd0 (some f0)) with
  | none => exact hundo
  | some fd1 => ?_
  simp only [setSlot, setPc, put_put, put_proc_self]
  refine h.moves (by simp [hl]) (.of_live hl (fun _ => hc) nofun nofun nofun) nofun
    (fun g => ?_) (nil_subset _) rfl
  simp only [held, hpc, locals, stale, slots_fill (fdalloc_none hfd1),
    slots_fill (fdalloc_none hfd0), count_cons_ite, count_nil]
  omega

end

section

variable (h : Inv s)
include h

lemma Inv.start_fork (hl : (s.proc p).status = .live) (hpc : (s.proc p).pc = .idle)
    (hnp : (s.proc np).status = .unused) :
    Inv ((s.put np { s.proc np with status := .embryo }).setPc p (.fork np (finRange NOFILE))) := by
  have hne : np ≠ p := by
    rintro rfl
    simp [hl] at hnp
  have hok := h.ok np
  have hidle := hok.live (by simp [hnp])
  have hnone := hok.blank (.inl hnp)
  rw [put_setPc hne]
  refine h.pair hne (by simp [hl]) (.of_live hl nofun nofun nofun nofun)
    ⟨fun _ => hidle, fun _ => hok.idle hidle, nofun, hok.dup, hok.opens, hok.exits⟩
    (fun q fds hq => ?_) ?_ (by simp [hidle, Pc.copying]) (fun f => ?_)
    ⟨rfl, by simp [hidle, Pc.fresh]⟩ ⟨rfl, rfl⟩
  · have hemb := (h.child q np fds hq).1
    simp [hnp] at hemb
  · rintro _ _ ⟨⟩
    exact ⟨rfl, rfl, nodup_finRange _, fun fd _ => hnone fd⟩
  · simp [held, hpc, hidle, locals, stale]

variable {fds : List Fd}

lemma Inv.fork_dup (hpc : (s.proc p).pc = .fork np (fd :: fds))
    (hf : (s.proc p).ofile fd = some f) :
    Inv ((s.filedup f).setPc p (.forkStore np f fd fds)) := by
  have hl := h.live hpc nofun
  rw [setPc, filedup_proc]
  refine h.filedup ?_ (by simp [hl]) (.of_live hl nofun nofun nofun nofun) (by simp [hpc, copying])
    (fun g => ?_) rfl rfl
  · simpa [held, hpc, locals, stale] using slots_pos hf
  · simp [held, hpc, locals, stale, count_cons_ite]

lemma Inv.fork_skip (hpc : (s.proc p).pc = .fork np (fd :: fds)) :
    Inv (s.setPc p (.fork np fds)) := by
  have hl := h.live hpc nofun
  refine h.moves (by simp [hl]) (.of_live hl nofun nofun nofun nofun) ?_ (fun g => ?_)
    (nil_subset _) rfl
  · rintro _ _ ⟨⟩
    exact ⟨fd :: fds, by rw [hpc, copying], sublist_cons_self fd fds⟩
  · simp [held, hpc, locals, stale]

lemma Inv.fork_store (hpc : (s.proc p).pc = .forkStore np f fd fds) :
    Inv ((s.setSlot np fd (some f)).setPc p (.fork np fds)) := by
  have hl := h.live hpc nofun
  have hcopy : (s.proc p).pc.copying = some (np, fd :: fds) := by rw [hpc, copying]
  obtain ⟨hemb, hnodup, hnone⟩ := h.child p np _ hcopy
  have hne : np ≠ p := by
    rintro rfl
    simp [hl] at hemb
  have hok := h.ok np
  have hidle := hok.live (by simp [hemb])
  have hfd := hnone fd (mem_cons_self ..)
  rw [setSlot, put_setPc hne]
  refine h.pair hne (by simp [hl]) (.of_live hl nofun nofun nofun nofun)
    ⟨fun _ => hidle, fun _ => hok.idle hidle, by simp [hemb], by simp [hidle], by simp [hidle],
      by simp [hidle, exiting]⟩
    (fun q fds' hq => h.once q p np _ _ hq hcopy) ?_ (by simp [hidle, Pc.copying]) (fun g => ?_)
    ⟨rfl, by simp [hidle, Pc.fresh]⟩ ⟨rfl, rfl⟩
  · rintro _ _ ⟨⟩
    rw [nodup_cons] at hnodup
    refine ⟨rfl, hemb, hnodup.2, fun fd' hfd' => ?_⟩
    have hne' : fd' ≠ fd := fun heq => hnodup.1 (heq ▸ hfd')
    exact (update_of_ne hne' ..).trans (hnone fd' (mem_cons_of_mem fd hfd'))
  · simp only [held, hpc, hidle, locals, stale, slots_fill hfd, count_cons_ite, count_nil]
    omega

lemma Inv.fork_done (hpc : (s.proc p).pc = .fork np []) (hc : (s.proc p).closing = none) :
    Inv ((s.put np { s.proc np with status := .live }).setPc p .idle) := by
  have hl := h.live hpc nofun
  have hcopy : (s.proc p).pc.copying = some (np, []) := by rw [hpc, copying]
  have hemb := (h.child p np _ hcopy).1
  have hne : np ≠ p := by
    rintro rfl
    simp [hl] at hemb
  have hok := h.ok np
  have hidle := hok.live (by simp [hemb])
  rw [put_setPc hne]
  refine h.pair hne (by simp [hl]) (.of_live hl (fun _ => hc) nofun nofun nofun)
    (.of_live rfl (fun _ => hok.idle hidle) hok.dup hok.opens hok.exits)
    (fun q fds' hq => h.once q p np _ _ hq hcopy) nofun (by simp [hidle, Pc.copying]) (fun g => ?_)
    ⟨rfl, by simp [hidle, Pc.fresh]⟩ ⟨rfl, rfl⟩
  simp [held, hpc, hidle, Pc.locals, Pc.stale]

lemma Inv.start_exit (hl : (s.proc p).status = .live) (hpc : (s.proc p).pc = .idle) :
    Inv (s.setPc p (.exit (finRange NOFILE))) := by
  refine h.moves (by simp [hl]) (.of_live hl nofun nofun nofun ?_) nofun (fun g => ?_)
    (nil_subset _) rfl
  · rintro _ ⟨⟩ fd hfd
    exact absurd (mem_finRange fd) hfd
  · simp [held, hpc, locals, stale]

lemma Inv.exit_skip (hpc : (s.proc p).pc = .exit (fd :: fds)) (hf : (s.proc p).ofile fd = none) :
    Inv (s.setPc p (.exit fds)) := by
  have hl := h.live hpc nofun
  refine h.moves (by simp [hl]) (.of_live hl nofun nofun nofun ?_) nofun (fun g => ?_)
    (nil_subset _) rfl
  · rintro _ ⟨⟩ fd' hfd'
    by_cases heq : fd' = fd
    · exact heq ▸ hf
    · exact (h.ok p).exits (fd :: fds) (by rw [hpc, exiting]) fd' (by simp [heq, hfd'])
  · simp [held, hpc, locals, stale]

lemma Inv.exit_close (hpc : (s.proc p).pc = .exit (fd :: fds)) (hf : (s.proc p).ofile fd = some f)
    (hc : (s.proc p).closing = none) : Inv ((s.fileclose p f).setPc p (.exitClear fd fds)) := by
  have hl := h.live hpc nofun
  have hpos := slots_pos hf
  refine h.fileclose ?_ (by simp [hl]) hc (fun c => .of_live hl nofun nofun nofun ?_) rfl
    (fun g => ?_) rfl
  · simpa [held, hpc, locals, stale] using hpos
  · rintro _ ⟨⟩
    exact (h.ok p).exits (fd :: fds) (by rw [hpc, exiting])
  simp only [held, hpc, locals, stale, hf, toList_some, count_cons_ite, count_nil]
  split
  case isTrue heq => subst heq; omega
  case isFalse => omega

lemma Inv.exit_clear (hpc : (s.proc p).pc = .exitClear fd fds) :
    Inv ((s.setSlot p fd none).setPc p (.exit fds)) := by
  have hl := h.live hpc nofun
  simp only [setSlot, setPc, put_put, put_proc_self]
  refine h.moves (by simp [hl]) (.of_live hl nofun nofun nofun ?_) nofun (fun g => ?_)
    (nil_subset _) rfl
  · rintro _ ⟨⟩ fd' hfd'
    by_cases heq : fd' = fd
    · subst heq
      exact update_self ..
    refine (update_of_ne heq ..).trans ?_
    exact (h.ok p).exits (fd :: fds) (by rw [hpc, exiting]) fd' (by simp [heq, hfd'])
  simp only [held, hpc, locals, stale, count_nil]
  cases hf : (s.proc p).ofile fd with
  | none => rw [update_eq_self_iff.mpr hf.symm]; rfl
  | some f => ?_
  simp only [toList_some, count_cons_ite, count_nil, slots_clear hf]
  omega

lemma Inv.exit_done (hpc : (s.proc p).pc = .exit []) (hc : (s.proc p).closing = none) :
    Inv (s.put p { s.proc p with status := .zombie, pc := .idle }) := by
  have hl := h.live hpc nofun
  have hnone : ∀ fd, (s.proc p).ofile fd = none := fun fd =>
    (h.ok p).exits [] (by rw [hpc, exiting]) fd (not_mem_nil)
  refine h.moves (by simp [hl]) ⟨fun _ => rfl, fun _ => hc, fun _ => hnone, nofun, nofun, nofun⟩
    nofun (fun g => ?_) (nil_subset _) rfl
  simp [held, hpc, locals, stale]

lemma Inv.reap (hz : (s.proc p).status = .zombie) :
    Inv (s.put p { s.proc p with status := .unused }) := by
  have hok := h.ok p
  have hidle := hok.live (by simp [hz])
  refine h.moves (by simp [hz]) ⟨fun _ => hidle, hok.idle, fun _ => hok.blank (.inr hz), hok.dup,
    hok.opens, hok.exits⟩ (by simp [hidle, copying]) (fun g => ?_) (List.Subset.refl _) rfl
  simp [held, hidle, locals, stale]

end

end Calls

lemma Inv.go {page : Option (Nat → UInt8)} (h : Inv s) (hs : s.go p page = some t) : Inv t := by
  rw [State.go] at hs
  cases hc : (s.proc p).closing with
  | some u =>
    rw [hc] at hs
    cases hs
    exact h.pipeclose hc
  | none => ?_
  simp only [hc] at hs
  -- A call that gives up keeps its references for the closing.
  have hundo : ∀ pc, (s.proc p).pc = pc → pc ≠ .idle → pc.stale (s.proc p).ofile = [] →
      Inv (s.setPc p (.close pc.locals)) := by
    rintro _ rfl hne hstale
    exact h.undo hne hstale
  cases hpc : (s.proc p).pc <;> simp only [hpc] at hs
  case idle => cases hs
  case dup f => cases hs; exact h.dup hpc hc
  case close fs =>
    cases fs with
    | nil => cases hs; exact h.return hpc hc
    | cons f fs => cases hs; exact h.close hpc hc
  case openFd f r w =>
    cases hfd : fdalloc (s.proc p).ofile <;> simp only [hfd] at hs <;> cases hs
    · exact hundo _ hpc nofun rfl
    · exact h.openFd hpc hfd
  case openSet f r w => cases hs; exact h.openSet hpc hc
  case pipeSecond f0 =>
    cases hf : s.findFile <;> simp only [hf] at hs <;> cases hs
    · exact hundo _ hpc nofun rfl
    · exact h.pipeSecond hpc hf
  case pipePage f0 f1 =>
    cases page <;> cases hs
    · exact hundo _ hpc nofun rfl
    · exact h.pipePage hpc _
  case pipeFds f0 f1 => cases hs; exact h.pipeFds hpc hc
  case fork np fds =>
    cases fds with
    | nil => cases hs; exact h.fork_done hpc hc
    | cons fd fds => ?_
    cases hf : (s.proc p).ofile fd <;> simp only [hf] at hs <;> cases hs
    · exact h.fork_skip hpc
    · exact h.fork_dup hpc hf
  case forkStore np f fd fds => cases hs; exact h.fork_store hpc
  case exit fds =>
    cases fds with
    | nil => cases hs; simpa only [hc] using h.exit_done hpc hc
    | cons fd fds => ?_
    simp only at hs
    cases hf : (s.proc p).ofile fd <;> simp only [hf] at hs <;> cases hs
    · exact h.exit_skip hpc hf
    · exact h.exit_close hpc hf hc
  case exitClear fd fds => cases hs; exact h.exit_clear hpc

lemma Inv.step {a : Act π} (h : Inv s) (hs : Ftable.step s a = some t) : Inv t := by
  obtain ⟨⟨-, hready⟩, hs⟩ := ite_none_right_eq_some.mp hs
  cases a with
  | dup p fd =>
    have hp := hready p rfl
    simp only [act] at hs
    cases hf : (s.proc p).ofile fd <;> simp only [hf] at hs
    · cases hs; exact h
    · cases hfd : fdalloc (s.proc p).ofile <;> simp only [hfd] at hs <;> cases hs
      · exact h
      · exact h.start_dup hp.1 hp.pc_eq hf hfd
  | close p fd =>
    have hp := hready p rfl
    simp only [act] at hs
    cases hf : (s.proc p).ofile fd <;> simp only [hf] at hs <;> cases hs
    · exact h
    · exact h.start_close hp.1 hp.pc_eq hf
  | «open» p r w =>
    have hp := hready p rfl
    simp only [act] at hs
    cases hf : s.findFile <;> simp only [hf] at hs <;> cases hs
    · exact h
    · exact h.start_alloc hp.1 hp.pc_eq hf (.inl ⟨r, w, rfl⟩)
  | pipe p =>
    have hp := hready p rfl
    simp only [act] at hs
    cases hf : s.findFile <;> simp only [hf] at hs <;> cases hs
    · exact h
    · exact h.start_alloc hp.1 hp.pc_eq hf (.inr rfl)
  | fork p np ok =>
    have hp := hready p rfl
    obtain ⟨hnp, hs⟩ := ite_none_right_eq_some.mp hs
    cases ok <;> cases hs
    · exact h
    · exact h.start_fork hp.1 hp.pc_eq hnp
  | exit p =>
    have hp := hready p rfl
    cases hs
    exact h.start_exit hp.1 hp.pc_eq
  | reap q =>
    obtain ⟨hz, hs⟩ := ite_none_right_eq_some.mp hs
    cases hs
    exact h.reap hz
  | go p page => exact h.go hs

lemma Inv.boot (init : π) : Inv (boot init) where
  calm := rfl
  ok p := ⟨fun _ => rfl, fun _ => rfl, fun _ _ => rfl, nofun, nofun, nofun⟩
  child := nofun
  once := nofun
  counted f := by simp [Ftable.boot, held, slots, locals, stale]
  free _ _ := rfl
  fresh := nofun
  ends := by
    refine ⟨fun r r' u hr => ?_, fun r u hr => ?_, nofun⟩ <;>
      rcases r with f | p <;> simp [Holds, Ftable.boot] at hr
  pages k := by simp [PageOk, Ftable.boot]

lemma Inv.steps {init : π} {as : List (Act π)} (h : Steps (Ftable.boot init) as s) : Inv s :=
  h.invariant (.boot init) fun _ _ _ hi hs => hi.step hs

/-! ## The results -/

section

omit [DecidableEq π]

lemma Inv.freed_iff (h : Inv s) (hk : k < s.created) : s.frees k = 1 ↔ ∀ w, ¬ s.IsOpen (k, w) := by
  have hpage := h.pages k
  rw [PageOk] at hpage
  cases hx : s.pipe k with
  | none =>
    rw [hx] at hpage
    simp [hpage, hk, State.IsOpen, hx]
  | some x => ?_
  simp only [hx] at hpage
  refine ⟨fun hone => by omega, fun hclosed => ?_⟩
  rcases hpage.2.2 with hr | hw
  · exact absurd ⟨x, hx, hr⟩ (hclosed false)
  · exact absurd ⟨x, hx, hw⟩ (hclosed true)

lemma Inv.not_isOpen_iff (h : Inv s) (hk : k < s.created) (w : Bool) :
    ¬ s.IsOpen (k, w) ↔ ∀ r, ¬ s.Holds r (k, w) := by
  rw [h.ends.marked_iff (k, w) hk]
  simp

/-- Where nobody is inside a call, the references are the descriptors. -/
lemma Inv.ref_eq_slots (h : Inv s) (hquiet : ∀ p, (s.proc p).pc = .idle) (f : FileId) :
    (s.file f).ref = ∑ p, slots (s.proc p).ofile f := by
  refine (h.counted f).trans (sum_congr rfl fun p _ => ?_)
  simp [held, hquiet p, locals, stale]

/-- A slot that leads to a free entry is one that `exit` is about to
clear. -/
lemma Inv.slot_of_free (h : Inv s) (hf : (s.file f).ref = 0) (hfd : (s.proc p).ofile fd = some f)
    : ∃ fds, (s.proc p).pc = .exitClear fd fds := by
  have hheld : (s.proc p).held f = 0 := by
    have hle : (s.proc p).held f ≤ (s.file f).ref := h.counted.le p f
    omega
  have hpos := slots_pos hfd
  cases hpc : (s.proc p).pc <;> simp only [held, hpc, stale, count_nil] at hheld
  case dup g =>
    have htwo := (h.ok p).dup g hpc
    rw [count_cons_ite, count_nil] at hheld
    split at hheld
    case isTrue heq => subst heq; omega
    case isFalse => omega
  case exitClear fd' fds =>
    by_cases heq : fd = fd'
    · exact ⟨fds, by rw [heq]⟩
    -- The other slot, which also leads to `f`, has its reference.
    have hrest : 0 < slots (update (s.proc p).ofile fd' none) f :=
      @slots_pos _ fd _ (by rw [update_of_ne heq, hfd])
    cases hf' : (s.proc p).ofile fd' with
    | none =>
      rw [hf', toList_none, count_nil] at hheld
      omega
    | some g => ?_
    rw [slots_clear hf', hf', toList_some, count_cons_ite, count_nil] at hheld
    omega
  all_goals omega

end

/-- Open files are accounted for: in every state of every run no check of
the counts has failed, an entry is handed out again only when no process
but one that is clearing its last slot in `exit` has a slot that leads to
it, and a pipe's page goes back once, when nothing stands for its ends;
where nobody is inside a call the counts are the numbers of descriptors
and the pages that are not back are those with descriptors. -/
theorem files_accounted {init : π} {as : List (Act π)} (h : Steps (Ftable.boot init) as s) :
    s.panic = none ∧ (∀ f, s.findFile = some f → ∀ p fd, (s.proc p).ofile fd = some f →
        ∃ fds, (s.proc p).pc = .exitClear fd fds) ∧
      (∀ k < s.created, s.frees k ≤ 1 ∧ (s.frees k = 1 → ∀ f, (s.file f).kind ≠ .pipe k)) ∧
      ((∀ p, (s.proc p).pc = .idle) → (∀ f, (s.file f).ref = ∑ p, slots (s.proc p).ofile f) ∧
        ∀ k < s.created, s.frees k = 1 ↔
          ∀ p fd f, (s.proc p).ofile fd = some f → (s.file f).kind ≠ .pipe k) := by
  have hi := Inv.steps h
  refine ⟨hi.calm, fun f hf p fd hfd => ?_, fun k hk => ⟨?_, fun hfree f hf => ?_⟩, fun hquiet => ?_⟩
  · exact hi.slot_of_free (by simpa using find?_some hf) hfd
  · have hpage := hi.pages k
    rw [PageOk] at hpage
    cases hx : s.pipe k <;> simp only [hx] at hpage
    · split at hpage <;> omega
    · omega
  · have hclosed := (hi.freed_iff hk).mp hfree (s.file f).writable
    exact (hi.not_isOpen_iff hk _).mp hclosed (.inl f) ⟨hf, rfl⟩
  refine ⟨hi.ref_eq_slots hquiet, fun k hk => ⟨fun hfree p fd f _ hf => ?_, fun hnone => ?_⟩⟩
  · have hclosed := (hi.freed_iff hk).mp hfree (s.file f).writable
    exact (hi.not_isOpen_iff hk _).mp hclosed (.inl f) ⟨hf, rfl⟩
  refine (hi.freed_iff hk).mpr fun w => (hi.not_isOpen_iff hk w).mpr fun r hr => ?_
  cases r with
  | inr p =>
    rw [Holds, (hi.ok p).idle (hquiet p)] at hr
    cases hr
  | inl f => ?_
  -- An entry that stands for an end has a reference, so a slot.
  have hpos : (s.file f).ref ≠ 0 := fun hz => by simpa [hi.free f hz] using hr.1
  rw [hi.ref_eq_slots hquiet f] at hpos
  obtain ⟨p, -, hp⟩ := exists_ne_zero_of_sum_ne_zero hpos
  obtain ⟨fd, -, hfd⟩ := exists_ne_zero_of_sum_ne_zero hp
  exact hnone p fd f (by simpa using hfd) hr.1

def pipeAndClose : List (Act (Fin 2)) :=
  let p : Fin 2 := ⟨0, Nat.zero_lt_two⟩
  .pipe p :: .go p none :: .go p (some fun _ => 0) :: .go p none ::
    ((finRange NOFILE).take 2).flatMap fun fd => .close p fd :: replicate 3 (.go p none)

theorem files_accounted_pipeAndClose :
    ∃ s, Steps (Ftable.boot (0 : Fin 2)) pipeAndClose s ∧ s.created = 1 ∧ s.frees 0 = 1 ∧
      s.panic = none ∧ ∀ f, (s.file f).kind ≠ .pipe 0 := by
  have hview : (Runs.follow Ftable.step (Ftable.boot (0 : Fin 2)) pipeAndClose).map
      (fun s => (s.created, s.frees 0)) = some (1, 1) := by decide +kernel
  obtain ⟨s, hs, heq⟩ := map_eq_some_iff.mp hview
  obtain ⟨hcreated, hfrees⟩ := Prod.mk.inj heq
  have hrun := Runs.run_of_follow hs
  obtain ⟨hcalm, -, hpages, -⟩ := files_accounted hrun
  exact ⟨s, hrun, hcreated, hfrees, hcalm, (hpages 0 (by omega)).2 hfrees⟩

end Invariant

end Proninx.Ftable
